import QuantovaChain.Idfmt

/-!
# One text for every identifier

Text that parses is the rendering of what it parses to, up to its case, which is the same
throughout. The checksum groups are determined by those before them, the padding is zero, and the
last separator is the one that the human readable part ends at. Families differ in their human
readable part, so a text is an identifier of one family at most.
-/

namespace QuantovaChain.Idfmt

section Texts

variable {text hrp : Text} {payload : List UInt8}

/-- Groups that regroup into bytes without a rest are what the bytes regroup into. -/
theorem convertBits_inverse {groups : List UInt8} (small : ∀ group ∈ groups, group.toNat < 2 ^ 5)
    (regrouped : convertBits groups 5 8 false = some payload) :
    convertBits payload 8 5 true = some groups := by
  have holds := regroup_holds 5 8 (by decide) (by decide) groups small
  have whole : ¬ groups.any (fun group => group.toNat / 2 ^ 5 ≠ 0) := by
    simpa using fun group inside => small group inside
  simp only [convertBits, if_neg whole, if_false, Bool.false_eq_true] at regrouped
  generalize regroup 5 8 groups = ended at holds regrouped
  split at regrouped
  · cases regrouped
  next clean =>
  rw [not_or, not_le, ne_eq, not_not] at clean
  obtain rfl := Option.some.inj regrouped
  obtain ⟨padded, pad, spelled, paddedSmall, short, count, value⟩ := convertBits_pad ended.out
  have counted := holds.count
  have values := holds.value
  rw [List.length_map] at counted
  have bits : ended.bits = pad := by omega
  have zero : ended.acc % 2 ^ ended.bits = 0 := by
    have cut := clean.2
    rw [show (2 : Nat) ^ 8 = 2 ^ ended.bits * 2 ^ (8 - ended.bits) by
      rw [← pow_add, Nat.add_sub_cancel' (by omega)], Nat.mul_mod_mul_right] at cut
    exact (Nat.mul_eq_zero.mp cut).resolve_right (Nat.two_pow_pos _).ne'
  rw [zero, Nat.add_zero, bits, ← value] at values
  obtain ⟨-, same⟩ := spell_injective (by simpa using paddedSmall) (by simpa using small)
    (by simp only [List.length_map]; omega) values
  rw [spelled, List.map_injective_iff.mpr (fun _ _ => UInt8.toNat_inj.mp) same]

theorem shift_cancel {high : BitVec 32} {value : UInt8} (short : high.toNat < 2 ^ 27)
    (small : value.toNat < 2 ^ 5) :
    ((high <<< 5) ^^^ value.toBitVec.setWidth 32) >>> 5 = high := by
  apply BitVec.eq_of_toNat_eq
  have low : (value.toBitVec.setWidth 32) >>> 5 = 0#32 := by
    apply BitVec.eq_of_toNat_eq
    simp [Nat.shiftRight_eq_div_pow]
    omega
  rw [BitVec.ushiftRight_xor_distrib, low, BitVec.xor_zero]
  simp [Nat.shiftLeft_eq, Nat.shiftRight_eq_div_pow]
  omega

/-- Few values are determined by the number they pack to. -/
theorem pack_injective {first second : List UInt8} (few : first.length ≤ 6)
    (lengths : first.length = second.length) (small : ∀ value ∈ first, value.toNat < 2 ^ 5)
    (smallAgain : ∀ value ∈ second, value.toNat < 2 ^ 5) (same : pack first = pack second) :
    first = second := by
  induction first using List.reverseRecOn generalizing second with
  | nil => exact (List.length_eq_zero_iff.mp lengths.symm).symm
  | append_singleton first value hypothesis =>
    cases second using List.reverseRecOn with
    | nil => simp at lengths
    | append_singleton second other =>
      simp only [List.length_append, List.length_singleton, Nat.add_right_cancel_iff] at lengths few
      simp only [List.forall_mem_append, List.forall_mem_singleton] at small smallAgain
      have short (values : List UInt8) (five : values.length ≤ 5)
          (below : ∀ value ∈ values, value.toNat < 2 ^ 5) : (pack values).toNat < 2 ^ 27 :=
        (pack_small values below).trans_le (Nat.pow_le_pow_right (by decide) (by omega))
      rw [pack_append, pack_append] at same
      have heads : pack first = pack second := by
        rw [← shift_cancel (short first (by omega) small.1) small.2, same,
          shift_cancel (short second (by omega) smallAgain.1) smallAgain.2]
      rw [heads, BitVec.xor_right_inj] at same
      have values : value = other := by
        have numbers := congrArg BitVec.toNat same
        simp only [BitVec.toNat_setWidth, UInt8.toNat_toBitVec] at numbers
        apply UInt8.toNat_inj.mp
        omega
      rw [hypothesis (by omega) lengths small.1 smallAgain.1 heads, values]

/-- The checksum groups are the only six that close a checksum. -/
theorem closing_unique {chk : BitVec 32} {closing : List UInt8} (six : closing.length = 6)
    (small : ∀ value ∈ closing, value.toNat < 2 ^ 5)
    (closes : polymod chk closing = bech32mConst) : closing = checksum chk := by
  have sixAgain : (checksum chk).length = 6 := by simp [checksum]
  have packed := closes.trans (polymod_checksum chk).symm
  rw [polymod_pack chk _ six.le small, polymod_pack chk _ sixAgain.le (checksum_small chk), six,
    sixAgain, BitVec.xor_right_inj] at packed
  exact pack_injective six.le (six.trans sixAgain.symm) small (checksum_small chk) packed

theorem rsplit_eq_some {before after : Text} (found : rsplit text = some (before, after)) :
    text = before ++ separatorByte :: after := by
  induction text generalizing before with
  | nil => cases found
  | cons byte rest hypothesis =>
    unfold rsplit at found
    grind

theorem charsetIndex_eq_some {byte group : UInt8} (found : charsetIndex byte = some group) :
    byte = charOf group ∧ group.toNat < 2 ^ 5 := by
  have table : ∀ number < 256, ∀ group ∈ charsetIndex (UInt8.ofNat number),
      UInt8.ofNat number = charOf group ∧ group.toNat < 2 ^ 5 := by decide +kernel
  have entry := table byte.toNat byte.toNat_lt
  rw [UInt8.ofNat_toNat] at entry
  exact entry group found

theorem mapM_charsetIndex_eq_some {body groups : List UInt8}
    (found : body.mapM charsetIndex = some groups) :
    body = groups.map charOf ∧ ∀ group ∈ groups, group.toNat < 2 ^ 5 := by
  induction body generalizing groups with
  | nil => cases found; simp
  | cons byte rest hypothesis =>
    simp only [List.mapM_cons, bind, Option.bind_eq_some_iff, pure, Option.some.injEq] at found
    obtain ⟨group, here, later, there, rfl⟩ := found
    obtain ⟨same, small⟩ := charsetIndex_eq_some here
    obtain ⟨tails, others⟩ := hypothesis there
    exact ⟨by rw [same, tails, List.map_cons], List.forall_mem_cons.mpr ⟨small, others⟩⟩

/-- Text in lower case that passes the checksum: a human readable part, the separator and groups. -/
structure Checked (text hrp : Text) (groups : List UInt8) : Prop where
  spelled : text = hrp ++ separatorByte :: groups.map charOf
  small : ∀ group ∈ groups, group.toNat < 2 ^ 5
  closes : polymod (hrpPolymod hrp) groups = bech32mConst

theorem decode_checked (decoded : decode text = .ok (hrp, payload)) :
    ∃ groups, Checked (text.map toAsciiLowercase) hrp groups ∧ 6 ≤ groups.length ∧
      convertBits (groups.take (groups.length - 6)) 5 8 false = some payload ∧
      (text.any isAsciiLowercase && text.any isAsciiUppercase) = false := by
  unfold decode at decoded
  split at decoded
  · cases decoded
  split at decoded
  · cases decoded
  next oneCase =>
  split at decoded
  · cases decoded
  next found body separated =>
  split at decoded
  · cases decoded
  next long =>
  split at decoded
  · cases decoded
  split at decoded
  · cases decoded
  next groups read =>
  split at decoded
  · cases decoded
  next closes =>
  split at decoded
  · cases decoded
  next bytes regrouped =>
  cases decoded
  have whole := rsplit_eq_some separated
  obtain ⟨rfl, small⟩ := mapM_charsetIndex_eq_some read
  have lengths := congrArg List.length whole
  simp only [List.length_map, List.length_append, List.length_cons] at lengths
  exact ⟨groups, ⟨whole, small, not_not.mp closes⟩, by omega, regrouped, Bool.not_eq_true _ ▸ oneCase⟩

/-- Text that decodes is in one case, and is the rendering of what it decodes to but for that. -/
theorem decode_eq_ok (decoded : decode text = .ok (hrp, payload)) :
    text.map toAsciiLowercase = (render hrp payload).map toAsciiLowercase ∧
      hrp.map toAsciiLowercase = hrp ∧
      (text.any isAsciiLowercase && text.any isAsciiUppercase) = false := by
  obtain ⟨groups, ⟨whole, small, closes⟩, long, regrouped, oneCase⟩ := decode_checked decoded
  have lower : hrp.map toAsciiLowercase = hrp := by
    have twice := congrArg (List.map toAsciiLowercase) whole
    have idem : toAsciiLowercase ∘ toAsciiLowercase = toAsciiLowercase :=
      funext toAsciiLowercase_idem
    rw [List.map_map, idem, whole, List.map_append] at twice
    exact (List.append_inj_left twice (by simp)).symm
  refine ⟨?_, lower, oneCase⟩
  have dataSmall : ∀ group ∈ groups.take (groups.length - 6), group.toNat < 2 ^ 5 :=
    fun group inside => small group (List.mem_of_mem_take inside)
  rw [render_lower hrp (convertBits_inverse dataSmall regrouped) dataSmall, whole, lower]
  have closing : groups.drop (groups.length - 6) =
      checksum (polymod (hrpPolymod hrp) (groups.take (groups.length - 6))) := by
    refine closing_unique (by rw [List.length_drop]; omega)
      (fun group inside => small group (List.mem_of_mem_drop inside)) ?_
    rw [polymod, polymod, ← List.foldl_append, List.take_append_drop]
    exact closes
  rw [← closing, List.take_append_drop]

theorem toAsciiUppercase_idem (byte : UInt8) :
    toAsciiUppercase (toAsciiUppercase byte) = toAsciiUppercase byte := by
  simp only [toAsciiUppercase]
  grind

theorem isAsciiUppercase_lower (byte : UInt8) : isAsciiUppercase (toAsciiLowercase byte) = false := by
  simp only [toAsciiLowercase, isAsciiUppercase]
  grind

/-- The case of the human readable part does not matter for the rendering in lower case. -/
theorem render_lower_hrp (hrp : Text) (payload : List UInt8) :
    (render (hrp.map toAsciiLowercase) payload).map toAsciiLowercase =
      (render hrp payload).map toAsciiLowercase := by
  obtain ⟨groups, pad, regrouped, small, -⟩ := convertBits_pad payload
  rw [render_lower _ regrouped small, render_lower _ regrouped small, hrpPolymod_lower]
  simp [Function.comp_def, toAsciiLowercase_idem]

theorem parse_eq_ok (parsed : parse hrp text = .ok payload) :
    decode text = .ok (hrp.map toAsciiLowercase, payload) := by
  unfold parse at parsed
  split at parsed
  · cases parsed
  next found bytes decoded =>
  split at parsed
  next same =>
    cases parsed
    rw [decoded, ← same, (decode_eq_ok decoded).2.1]
  next => cases parsed

theorem map_upper (plain : text.any isAsciiLowercase = false) :
    text.map toAsciiUppercase = text := by
  refine (List.map_congr_left fun byte inside => ?_).trans (List.map_id _)
  have plain := List.any_eq_false.mp plain byte inside
  simp only [isAsciiLowercase, toAsciiUppercase, id] at plain ⊢
  grind

theorem map_lower (plain : text.any isAsciiUppercase = false) :
    text.map toAsciiLowercase = text := by
  refine (List.map_congr_left fun byte inside => ?_).trans (List.map_id _)
  have plain := List.any_eq_false.mp plain byte inside
  simp only [isAsciiUppercase, toAsciiLowercase, id] at plain ⊢
  grind

/-- What spells a rendering is the rendering in upper case. -/
theorem upper_of_spells
    (spells : text.map toAsciiLowercase = (render hrp payload).map toAsciiLowercase) :
    text.map toAsciiUppercase = render hrp payload := by
  have raised := congrArg (List.map toAsciiUppercase) spells
  simpa [Function.comp_def, toAsciiUppercase_lower, render, toAsciiUppercase_idem] using raised

/-- Text that parses is the rendering, in upper or in lower case. -/
theorem spellings (readable : Readable hrp) (digest : payload.length = digestLen) :
    parse hrp text = .ok payload ↔
      text = render hrp payload ∨ text = (render hrp payload).map toAsciiLowercase := by
  constructor
  · intro parsed
    obtain ⟨spells, -, oneCase⟩ := decode_eq_ok (parse_eq_ok parsed)
    rw [render_lower_hrp] at spells
    rcases Bool.and_eq_false_iff.mp oneCase with upper | lower
    · exact .inl ((map_upper upper).symm.trans (upper_of_spells spells))
    · exact .inr ((map_lower lower).symm.trans spells)
  · rintro (rfl | rfl)
    · exact parse_render _ _ readable.1 readable.2.2 (readable.render_short digest)
    · have decoded : decode ((render hrp payload).map toAsciiLowercase) = _ :=
        decode_render hrp payload readable.1 readable.2.2 (readable.render_short digest)
          (by simp [Function.comp_def, toAsciiLowercase_idem]) (by simp [isAsciiUppercase_lower])
      simp [parse, decoded, Function.comp_def, toAsciiLowercase_idem]

end Texts

/-! ## Families -/

inductive Family
  | address
  | secret
  | tx
  | block
  | state
  | cid
  | proof
  deriving DecidableEq

namespace Family

def hrp : Family → Text
  | address => hrpAddress
  | secret => hrpSecret
  | tx => hrpTx
  | block => hrpBlock
  | state => hrpState
  | cid => hrpCid
  | proof => hrpProof

def render : Family → List UInt8 → Except Error Text
  | address => renderAddress
  | secret => renderSecret
  | tx => renderTx
  | block => renderBlock
  | state => renderState
  | cid => renderCid
  | proof => renderProof

def parse : Family → Text → Except Error (List UInt8)
  | address => parseAddress
  | secret => parseSecret
  | tx => parseTx
  | block => parseBlock
  | state => parseState
  | cid => parseCid
  | proof => parseProof

/-- A digest family renders and parses under its human readable part. -/
theorem of_digest {family : Family} (digest : family ≠ secret) :
    family.render = renderDigest family.hrp ∧ family.parse = parseDigest family.hrp := by
  cases family with
  | secret => exact absurd rfl digest
  | _ => exact ⟨rfl, rfl⟩

theorem readable (family : Family) : Readable family.hrp := by
  cases family <;> decide +kernel

theorem hrp_injective {first second : Family}
    (same : first.hrp.map toAsciiLowercase = second.hrp.map toAsciiLowercase) : first = second := by
  revert same
  cases first <;> cases second <;> decide

theorem parse_of_ok {family : Family} {text : Text} {payload : List UInt8}
    (parsed : family.parse text = .ok payload) : Idfmt.parse family.hrp text = .ok payload := by
  have checked (check : Nat → Except Error Unit) (hrp : Text)
      (accepted : parseChecked check hrp text = .ok payload) : Idfmt.parse hrp text = .ok payload := by
    unfold parseChecked at accepted
    cases found : Idfmt.parse hrp text with
    | error error => rw [found] at accepted; cases accepted
    | ok bytes =>
      rw [found] at accepted
      simp only [bind, Except.bind, pure, Except.pure] at accepted
      grind
  cases family <;> exact checked _ _ parsed

end Family

/-- Digests have one text in upper case and its copy in lower case, which parse back to them; and no
text is an identifier of two families. What decodes spells the rendered text in one case, and
families differ in their first part. -/
theorem identifier_text_canonical :
    (∀ (family : Family) (payload : List UInt8), family ≠ .secret → payload.length = digestLen →
        ∃ text, family.render payload = .ok text ∧ family.parse text = .ok payload ∧
          ∀ other, family.parse other = .ok payload ↔
            other = text ∨ other = text.map toAsciiLowercase) ∧
      (∀ (family : Family) (text : Text) (payload : List UInt8), family ≠ .secret →
        family.parse text = .ok payload →
          family.render payload = .ok (text.map toAsciiUppercase)) ∧
      ∀ (first second : Family) (text : Text) (payload other : List UInt8),
        first.parse text = .ok payload → second.parse text = .ok other → first = second := by
  refine ⟨fun family payload digestFamily digest => ?_,
    fun family text payload digestFamily parsed => ?_,
    fun first second text payload other parsed parsedAgain => ?_⟩
  · obtain ⟨renders, parses⟩ := Family.of_digest digestFamily
    have spelled (text : Text) : family.parse text = .ok payload ↔
        text = render family.hrp payload ∨
          text = (render family.hrp payload).map toAsciiLowercase := by
      rw [parses, parseDigest_eq_ok, and_iff_left digest, spellings family.readable digest]
    refine ⟨render family.hrp payload, ?_, (spelled _).mpr (.inl rfl), spelled⟩
    rw [renders, renderDigest_eq_ok]
    exact ⟨digest, rfl⟩
  · obtain ⟨renders, parses⟩ := Family.of_digest digestFamily
    rw [parses, parseDigest_eq_ok] at parsed
    obtain ⟨spells, -⟩ := decode_eq_ok (parse_eq_ok parsed.1)
    rw [render_lower_hrp] at spells
    rw [renders, renderDigest_eq_ok, upper_of_spells spells]
    exact ⟨parsed.2, rfl⟩
  · have decoded := parse_eq_ok (Family.parse_of_ok parsed)
    rw [parse_eq_ok (Family.parse_of_ok parsedAgain)] at decoded
    exact Family.hrp_injective (Prod.mk.inj (Except.ok.inj decoded)).1.symm

end QuantovaChain.Idfmt
