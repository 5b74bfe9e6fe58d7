import QuantovaChain.Idfmt.Canonical

/-!
# Texts that are not read back

A checksum step loses nothing: neither two states that differ nor two groups that differ become the
same. So two texts of one human readable part that differ in one group do not both pass the
checksum. A separator that appears or disappears moves the end of the human readable part, and no
two families have human readable parts that differ in one character. One mistyped character is
therefore always noticed.

Text is refused where it is longer than any digest's text may be. The text of a long secret is, so
it is rendered and cannot be parsed.
-/

namespace QuantovaChain.Idfmt

/-! ## One mistyped character -/

/-- The last groups of the generators tell apart what overflowed. -/
theorem feedback_injective {first second : BitVec 32} (small : first.toNat < 2 ^ 5)
    (smallAgain : second.toNat < 2 ^ 5)
    (same : (feedback first ^^^ feedback second).toNat % 2 ^ 5 = 0) : first = second := by
  have table : ∀ number < 2 ^ 5, ∀ other < 2 ^ 5,
      (feedback (BitVec.ofNat 32 number) ^^^ feedback (BitVec.ofNat 32 other)).toNat % 2 ^ 5 = 0 →
        number = other := by decide +kernel
  apply BitVec.eq_of_toNat_eq
  refine table _ small _ smallAgain ?_
  rwa [BitVec.ofNat_toNat, BitVec.ofNat_toNat, BitVec.setWidth_eq, BitVec.setWidth_eq]

theorem polymodStep_injective {first second : BitVec 32} {value : UInt8}
    (short : first.toNat < 2 ^ 30) (shortAgain : second.toNat < 2 ^ 30)
    (same : polymodStep first value = polymodStep second value) : first = second := by
  have cut (chk : BitVec 32) : (chk &&& 33554431).toNat = chk.toNat % 2 ^ 25 := by
    rw [BitVec.toNat_and]
    exact Nat.and_two_pow_sub_one_eq_mod chk.toNat 25
  have top (chk : BitVec 32) : (chk >>> 25).toNat = chk.toNat / 2 ^ 25 := by
    rw [BitVec.toNat_ushiftRight, Nat.shiftRight_eq_div_pow]
  have shifted (low : BitVec 32) : (low <<< 5).toNat = low.toNat * 2 ^ 5 % 2 ^ 32 := by
    rw [BitVec.toNat_shiftLeft, Nat.shiftLeft_eq]
  rw [polymodStep_value, polymodStep_value second, BitVec.xor_left_inj, polymodStep_eq,
    polymodStep_eq, show (0 : UInt8).toBitVec.setWidth 32 = 0#32 from rfl, BitVec.xor_zero,
    BitVec.xor_zero] at same
  -- What the two steps feed back differs by what they shift, which leaves the last group alone.
  have apart : feedback (first >>> 25) ^^^ feedback (second >>> 25) =
      ((first &&& 33554431) ^^^ (second &&& 33554431)) <<< 5 := by
    rw [← BitVec.xor_eq_zero_iff, ← BitVec.xor_eq_zero_iff.mpr same, BitVec.shiftLeft_xor_distrib]
    ac_rfl
  have tops : first >>> 25 = second >>> 25 := by
    have above := top first
    have aboveAgain := top second
    refine feedback_injective (by omega) (by omega) ?_
    rw [apart, shifted]
    omega
  rw [tops, BitVec.xor_left_inj] at same
  have lows := congrArg BitVec.toNat same
  have levels := congrArg BitVec.toNat tops
  rw [shifted, shifted, cut, cut] at lows
  rw [top, top] at levels
  apply BitVec.eq_of_toNat_eq
  omega

theorem polymod_injective {first second : BitVec 32} (short : first.toNat < 2 ^ 30)
    (shortAgain : second.toNat < 2 ^ 30) {values : List UInt8}
    (small : ∀ value ∈ values, value.toNat < 2 ^ 5)
    (same : polymod first values = polymod second values) : first = second := by
  induction values generalizing first second with
  | nil => exact same
  | cons value rest hypothesis =>
    rw [List.forall_mem_cons] at small
    exact polymodStep_injective short shortAgain (hypothesis (polymodStep_lt _ small.1)
      (polymodStep_lt _ small.1) small.2 same)

/-- Groups that differ in one place have different checksums. -/
theorem polymod_mistyped {chk : BitVec 32} {before after : List UInt8} {first second : UInt8}
    (small : ∀ value ∈ before ++ first :: after, value.toNat < 2 ^ 5)
    (smallAgain : second.toNat < 2 ^ 5)
    (same : polymod chk (before ++ first :: after) = polymod chk (before ++ second :: after)) :
    first = second := by
  simp only [List.forall_mem_append, List.forall_mem_cons] at small
  simp only [polymod, List.foldl_append, List.foldl_cons] at same
  have steps := polymod_injective (polymodStep_lt _ small.2.1) (polymodStep_lt _ smallAgain)
    small.2.2 same
  rw [polymodStep_value, polymodStep_value _ second, BitVec.xor_right_inj] at steps
  have numbers := congrArg BitVec.toNat steps
  simp only [BitVec.toNat_setWidth, UInt8.toNat_toBitVec] at numbers
  apply UInt8.toNat_inj.mp
  omega

/-- The groups of characters are determined. -/
theorem charOf_injective {first second : List UInt8} (small : ∀ group ∈ first, group.toNat < 2 ^ 5)
    (smallAgain : ∀ group ∈ second, group.toNat < 2 ^ 5)
    (same : first.map charOf = second.map charOf) : first = second := by
  have read := mapM_charsetIndex small
  rw [same, mapM_charsetIndex smallAgain] at read
  exact (Option.some.inj read).symm

/-- The human readable part of a family in lower case. -/
def Family.lower (family : Family) : Text := family.hrp.map toAsciiLowercase

theorem Family.separator_absent (family : Family) : separatorByte ∉ family.lower := by
  cases family <;> decide

/-- No two families have human readable parts that differ in one place. -/
theorem Family.lower_apart {family other : Family} {before after : Text} {first second : UInt8}
    (spelled : family.lower = before ++ first :: after)
    (spelledAgain : other.lower = before ++ second :: after) : first = second := by
  have table : ∀ (family other : Family) (place : Fin 4), family.lower.length = other.lower.length →
      family.lower.take place = other.lower.take place →
      family.lower.drop (place + 1) = other.lower.drop (place + 1) → family.lower = other.lower := by
    intro family other
    cases family <;> cases other <;> decide
  have short : family.lower.length ≤ 4 := by
    rw [Family.lower, List.length_map]
    exact family.readable.2.1
  have place : before.length < 4 := by
    rw [spelled] at short
    simp at short
    omega
  have same := table family other ⟨before.length, place⟩ (by simp [spelled, spelledAgain])
    (by simp [spelled, spelledAgain]) (by simp [spelled, spelledAgain])
  rw [spelled, spelledAgain] at same
  exact (List.cons.inj (List.append_cancel_left same)).1

section Checked

variable {text hrp before after : Text} {groups others : List UInt8} {family other : Family}
  {first second : UInt8}

theorem Checked.absent (checked : Checked text hrp groups) :
    separatorByte ∉ groups.map charOf := by
  intro inside
  obtain ⟨group, member, same⟩ := List.mem_map.mp inside
  exact (charOf_spec (checked.small group member)).2.2 same

theorem Checked.rsplit_eq (checked : Checked text hrp groups) :
    rsplit text = some (hrp, groups.map charOf) := by
  rw [checked.spelled, rsplit_append _ checked.absent]

theorem Checked.count_separator (checked : Checked text family.lower groups) :
    text.count separatorByte = 1 := by
  rw [checked.spelled, List.count_append, List.count_cons_self,
    List.count_eq_zero.mpr family.separator_absent, List.count_eq_zero.mpr checked.absent]

/-- Two texts that differ in one place do not both pass the checksum. -/
theorem checked_mistyped (checked : Checked (before ++ first :: after) family.lower groups)
    (checkedAgain : Checked (before ++ second :: after) other.lower others) : first = second := by
  have counts := checked.count_separator.trans checkedAgain.count_separator.symm
  rw [List.count_append, List.count_append, List.count_cons, List.count_cons] at counts
  by_cases separator : first = separatorByte
  · by_cases separatorAgain : second = separatorByte
    · rw [separator, separatorAgain]
    · simp [separator, separatorAgain] at counts
  have plain : second ≠ separatorByte := by
    rintro rfl
    simp [separator] at counts
  rcases List.append_eq_append_iff.mp checked.spelled with ⟨rest, part, tail⟩ | ⟨rest, part, tail⟩
  · cases rest with
    | nil => exact absurd (List.cons.inj tail).1 separator
    | cons byte rest =>
      rw [List.cons_append, List.cons.injEq] at tail
      obtain ⟨rfl, rfl⟩ := tail
      have split := checkedAgain.rsplit_eq
      rw [← List.cons_append, ← List.append_assoc, rsplit_append _ checked.absent] at split
      exact Family.lower_apart part (Prod.mk.inj (Option.some.inj split)).1.symm
  · cases rest with
    | nil => exact absurd (List.cons.inj tail).1.symm separator
    | cons byte rest =>
      rw [List.cons_append, List.cons.injEq] at tail
      obtain ⟨rfl, body⟩ := tail
      have absent : separatorByte ∉ rest ++ second :: after := by
        have absent := checked.absent
        rw [body] at absent
        simp only [List.mem_append, List.mem_cons, not_or] at absent ⊢
        exact ⟨absent.1, plain.symm, absent.2.2⟩
      have split := checkedAgain.rsplit_eq
      rw [part, List.append_assoc, List.cons_append, rsplit_append _ absent] at split
      obtain ⟨parts, bodyAgain⟩ := Prod.mk.inj (Option.some.inj split)
      obtain ⟨front, back, rfl, rfl, inner⟩ := List.map_eq_append_iff.mp body
      obtain ⟨group, back, rfl, rfl, rfl⟩ := List.map_eq_cons_iff.mp inner
      obtain ⟨frontAgain, backAgain, rfl, fronts, inner⟩ := List.map_eq_append_iff.mp bodyAgain.symm
      obtain ⟨groupAgain, backAgain, rfl, rfl, backs⟩ := List.map_eq_cons_iff.mp inner
      have small := checked.small
      have smallAgain := checkedAgain.small
      simp only [List.forall_mem_append, List.forall_mem_cons] at small smallAgain
      obtain rfl := charOf_injective smallAgain.1 small.1 fronts
      obtain rfl := charOf_injective smallAgain.2.2 small.2.2 backs
      have closes := checkedAgain.closes
      rw [← parts, ← checked.closes] at closes
      rw [polymod_mistyped checkedAgain.small small.2.1 closes]

end Checked

theorem Family.parse_checked {family : Family} {text : Text} {payload : List UInt8}
    (parsed : family.parse text = .ok payload) :
    ∃ groups, Checked (text.map toAsciiLowercase) family.lower groups := by
  obtain ⟨groups, checked, -⟩ := decode_checked (parse_eq_ok (parse_of_ok parsed))
  exact ⟨groups, checked⟩

/-- Text that passes the checksum is ASCII. -/
theorem Checked.ascii {text : Text} {family : Family} {groups : List UInt8}
    (checked : Checked text family.lower groups) {byte : UInt8} (inside : byte ∈ text) :
    byte.toNat < 2 ^ 7 := by
  have lower : ∀ family : Family, ∀ byte ∈ family.lower, byte.toNat < 2 ^ 7 := by
    intro family
    cases family <;> decide +kernel
  have table : ∀ number < 2 ^ 5, (charOf (UInt8.ofNat number)).toNat < 2 ^ 7 := by decide
  rw [checked.spelled, List.mem_append, List.mem_cons] at inside
  rcases inside with part | rfl | body
  · exact lower family byte part
  · decide
  · obtain ⟨group, member, rfl⟩ := List.mem_map.mp body
    have entry := table group.toNat (checked.small group member)
    rwa [UInt8.ofNat_toNat] at entry

/-- A character that is not one byte has no ASCII bytes. -/
theorem utf8EncodeChar_cases (char : Char) :
    (∃ byte, String.utf8EncodeChar char = [byte]) ∨
      ∃ byte ∈ String.utf8EncodeChar char, 2 ^ 7 ≤ byte.toNat := by
  unfold String.utf8EncodeChar
  dsimp only
  split
  · exact .inl ⟨_, rfl⟩
  refine .inr ?_
  split
  · exact ⟨_, List.mem_cons_self, by simp; omega⟩
  split
  · exact ⟨_, List.mem_cons_self, by simp; omega⟩
  · exact ⟨_, List.mem_cons_self, by simp; omega⟩

/-- One character of a digest's text is replaced by a character that is not the same letter in the
other case. What is then there parses in no family. Both texts would pass the checksum, which two
texts that differ in one place cannot. -/
theorem mistyped_rejected {family : Family} {payload : List UInt8} {before after : Text}
    {byte : UInt8} {char : Char} (digestFamily : family ≠ .secret)
    (rendered : family.render payload = .ok (before ++ byte :: after))
    (differs : (String.utf8EncodeChar char).map toAsciiLowercase ≠ [toAsciiLowercase byte])
    (other : Family) (bytes : List UInt8) :
    other.parse (before ++ String.utf8EncodeChar char ++ after) ≠ .ok bytes := by
  intro accepted
  obtain ⟨renders, parses⟩ := Family.of_digest digestFamily
  rw [renders, renderDigest_eq_ok] at rendered
  have parsed : family.parse (before ++ byte :: after) = .ok payload := by
    rw [parses, rendered.2]
    exact parseDigest_render family.readable rendered.1
  obtain ⟨groups, checked⟩ := Family.parse_checked parsed
  obtain ⟨others, checkedAgain⟩ := Family.parse_checked accepted
  rcases utf8EncodeChar_cases char with ⟨typed, single⟩ | ⟨typed, inside, large⟩
  · rw [single] at differs checkedAgain
    simp only [List.map_append, List.map_cons, List.append_assoc, List.cons_append, List.map_nil,
      List.nil_append] at checked checkedAgain differs
    exact differs (by rw [checked_mistyped checked checkedAgain])
  · have small := checkedAgain.ascii (List.mem_map_of_mem
      (List.mem_append_left after (List.mem_append_right before inside)))
    have kept : toAsciiLowercase typed = typed := by
      refine if_neg fun letter => ?_
      have above : typed.toNat ≤ 90 := UInt8.le_iff_toNat_le.mp letter.2
      omega
    rw [kept] at small
    omega

/-- A letter of the address of zeros is mistyped. -/
theorem mistyped_rejected_zeros :
    ∃ before after, Family.address.render (List.replicate 32 0) = .ok (before ++ 81 :: after) ∧
      ∀ other bytes, Family.parse other (before ++ String.utf8EncodeChar 'Z' ++ after) ≠ .ok bytes := by
  have rendered : Family.address.render (List.replicate 32 0) =
      .ok (ascii "Q1" ++ 81 :: (List.replicate 53 81 ++ ascii "CT3U")) := by decide +kernel
  exact ⟨_, _, rendered, mistyped_rejected (by decide) rendered (by decide)⟩

/-! ## Secrets -/

/-- The length of the longest secret whose text is short enough to parse. -/
def longestSecret : Nat := 74

/-- Every secret from the floor on renders. Its text parses back to it if the secret is not too
long, and otherwise the text is too long to parse. The length of the text follows from that of the
secret, and a parser takes texts up to a length. -/
theorem secret_read_back (bytes : List UInt8) (floor : keyFloor ≤ bytes.length) :
    ∃ text, renderSecret bytes = .ok text ∧
      (bytes.length ≤ longestSecret → parseSecret text = .ok bytes) ∧
      (longestSecret < bytes.length →
        parseSecret text = .error (.badLength maxEncoded text.length)) := by
  have length := render_length hrpSecret bytes
  have two : hrpSecret.length = 2 := rfl
  have checked : checkFloor bytes.length = .ok () := if_neg (Nat.not_lt.mpr floor)
  refine ⟨render hrpSecret bytes, ?_, fun short => ?_, fun long => ?_⟩
  · rw [renderSecret, renderChecked, checked]
    rfl
  · obtain ⟨some, -, printable⟩ := Family.secret.readable
    have parsed := parse_render hrpSecret bytes some printable (by
      rw [length, two, maxEncoded]
      unfold longestSecret at short
      omega)
    rw [parseSecret, parseChecked, parsed]
    simp only [bind, Except.bind, checked]
    rfl
  · have tooLong : (render hrpSecret bytes).length > maxEncoded := by
      rw [length, two, maxEncoded]
      unfold longestSecret at long
      omega
    rw [parseSecret, parseChecked, parse, decode, if_pos tooLong]
    rfl

/-- A secret at the floor is read back. -/
theorem secret_read_back_floor :
    ∃ text, renderSecret (List.replicate 32 0) = .ok text ∧
      parseSecret text = .ok (List.replicate 32 0) := by
  obtain ⟨text, renders, parses, -⟩ := secret_read_back (List.replicate 32 0) (by decide)
  exact ⟨text, renders, parses (by decide)⟩

/-- A secret of seventy-five bytes is not. -/
theorem long_secret_unreadable :
    ∃ text, renderSecret (List.replicate 75 0) = .ok text ∧
      parseSecret text = .error (.badLength 128 129) :=
  ⟨render hrpSecret (List.replicate 75 0), rfl, by decide +kernel⟩

end QuantovaChain.Idfmt
