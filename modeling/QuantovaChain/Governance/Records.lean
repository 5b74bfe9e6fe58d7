import QuantovaChain.Codec.Reader

/-!
# Governance records as bytes

Actions and referenda are read back from what is written for them. All bytes but one kind determine
their value and are determined by it: a flag is written as zero or one and read from any byte, so
`AssetRegister` actions and referenda have further spellings, which differ in their last byte.

Referenda and receipts that were stored before weights were counted lack half of their tally. The
two formats agree up to the tally, which is where a record says how long it is, so no bytes are a
record in both.
-/

namespace QuantovaChain.Governance

open State (Bytes)
open Codec Codec.Reader Reading

theorem Track.fromCode_eq_some (code : UInt8) (track : Track) :
    fromCode code = some track ↔ code = track.code := by
  constructor
  · intro found
    unfold fromCode at found
    have same := List.find?_some found
    exact (beq_iff_eq.mp same).symm
  · rintro rfl
    cases track <;> rfl

theorem Status.fromCode_eq_some (code : UInt8) (status : Status) :
    fromCode code = some status ↔ code = status.code := by
  unfold fromCode
  cases status <;> grind [Status.code]

theorem Seizure.inverts_decode :
    Inverts decode encode fun seizure => seizure.source.length < 2 ^ 64 :=
  .ofFields (by simp [encode]) (by simp) <|
    inverts_bytes.field source fun _ =>
    inverts_u64.field amount fun _ =>
    inverts_record fun record => by cases record; simp

/-- A claim whose lengths fit their words. -/
def OperatorClaim.Fits (claim : OperatorClaim) : Prop :=
  claim.publicKey.length < 2 ^ 64 ∧ claim.pop.length < 2 ^ 64

theorem OperatorClaim.inverts_decode : Inverts decode encode Fits :=
  .ofFields (by simp [encode]) (by simp [Fits]) <|
    inverts_u32.field operatorId fun _ =>
    inverts_bytes.field publicKey fun _ =>
    inverts_bytes.field pop fun _ =>
    inverts_record fun record => by cases record; simp [and_assoc]

/-- A list whose length fits its word, as its elements fit theirs. -/
def ListFits {α : Type} (fits : α → Prop) (elements : List α) : Prop :=
  elements.length < 2 ^ 64 ∧ ∀ element ∈ elements, fits element

theorem CommitteeRotation.inverts_decode :
    Inverts decode encode fun rotation => ListFits OperatorClaim.Fits rotation.operators :=
  .ofFields (by simp [encode]) (by simp [ListFits]) <|
    (inverts_list OperatorClaim.inverts_decode).field operators fun _ =>
    inverts_u32.field threshold fun _ =>
    inverts_record fun record => by cases record; simp

theorem GuardianSet.inverts_decode :
    Inverts decode encode fun set => set.members.length < 2 ^ 64 :=
  .ofFields (by simp [encode]) (by simp) <|
    (inverts_list (inverts_sizedArray (by decide))).field members fun _ =>
    inverts_u32.field threshold fun _ =>
    inverts_record fun record => by cases record; simp

theorem inverts_hash : Inverts (sizedArray 32) (fun hash => putBytes hash.toList) fun _ => True :=
  inverts_sizedArray (by decide)

theorem inverts_assetId : Inverts (sizedArray 16) (fun id => putBytes id.toList) fun _ => True :=
  inverts_sizedArray (by decide)

/-! ## Actions -/

namespace Action

/-- An action whose lengths fit their words, as all lengths do that the program can hold. -/
def Fits : Action → Prop
  | activate feature _ => feature.length < 2 ^ 64
  | mint recipient _ => recipient.length < 2 ^ 64
  | bridgeMigration vault => vault.length < 2 ^ 64
  | guardianRotate set => set.members.length < 2 ^ 64
  | committeeRotate rotation => ListFits OperatorClaim.Fits rotation.operators
  | bridgeAnchorSet _ anchor => anchor.length < 2 ^ 64
  | freezeRecovery _ victim seizures =>
    victim.length < 2 ^ 64 ∧ ListFits (fun seizure => seizure.source.length < 2 ^ 64) seizures
  | freeze targets => ListFits (fun target => target.length < 2 ^ 64) targets
  | blacklist target => target.length < 2 ^ 64
  | parameter key value => key.length < 2 ^ 64 ∧ value.length < 2 ^ 64
  | spend source recipient _ => source.length < 2 ^ 64 ∧ recipient.length < 2 ^ 64
  | unfreeze targets => ListFits (fun target => target.length < 2 ^ 64) targets
  | bridgeUnfreeze | assetRegister .. | epochAdvance | operatorRevoke _ => True

theorem reads_encode {action : Action} (fits : action.Fits) (rest : Bytes) :
    Reads decode (action.encode ++ rest) action rest := by
  have built {value : Action} : Reads (pure value : Reader Action) rest value rest :=
    reads_pure.mpr ⟨rfl, rfl⟩
  cases action <;> simp only [encode, List.append_assoc] <;> refine inverts_u8.andThen trivial ?_
  case activate => exact inverts_bytes.andThen fits (inverts_u64.andThen trivial built)
  case mint => exact inverts_bytes.andThen fits (inverts_u64.andThen trivial built)
  case bridgeMigration => exact inverts_bytes.andThen fits built
  case bridgeUnfreeze => exact built
  case guardianRotate => exact GuardianSet.inverts_decode.andThen fits built
  case committeeRotate => exact CommitteeRotation.inverts_decode.andThen fits built
  case assetRegister assetId cap epochCap requiresStark =>
    refine inverts_assetId.andThen trivial (inverts_u128.andThen trivial
      (inverts_u128.andThen trivial (inverts_u8.andThen trivial ?_)))
    cases requiresStark <;> exact built
  case bridgeAnchorSet => exact inverts_u8.andThen trivial (inverts_bytes.andThen fits built)
  case epochAdvance => exact built
  case operatorRevoke => exact inverts_u32.andThen trivial built
  case freezeRecovery =>
    exact inverts_hash.andThen trivial (inverts_bytes.andThen fits.1
      ((inverts_list Seizure.inverts_decode).andThen fits.2 built))
  case freeze => exact (inverts_list inverts_bytes).andThen fits built
  case blacklist => exact inverts_bytes.andThen fits built
  case parameter => exact inverts_bytes.andThen fits.1 (inverts_bytes.andThen fits.2 built)
  case spend =>
    exact inverts_bytes.andThen fits.1 (inverts_bytes.andThen fits.2
      (inverts_u64.andThen trivial built))
  case unfreeze => exact (inverts_list inverts_bytes).andThen fits built

/-- What is read is what is written, except for the flag of a registration. -/
theorem reads_decode {action : Action} {input rest : Bytes} (reads : Reads decode input action rest) :
    input = action.encode ++ rest ∨ ∃ (shown : Bytes) (flag : UInt8), flag ≠ 0 ∧ flag ≠ 1 ∧
      input = putU8 14 ++ shown ++ putU8 flag ++ rest := by
  simp only [decode, inverts_u8.reads_bind] at reads
  obtain ⟨tag, middle, -, rfl, reads⟩ := reads
  split at reads
  case h_7 =>
    simp only [inverts_assetId.reads_bind, inverts_u128.reads_bind, inverts_u8.reads_bind,
      reads_pure] at reads
    obtain ⟨assetId, _, -, rfl, cap, _, -, rfl, epochCap, _, -, rfl, flag, _, -, rfl, rfl, rfl⟩ :=
      reads
    by_cases unset : flag = 0
    · exact .inl (by simp [encode, unset])
    by_cases isSet : flag = 1
    · exact .inl (by simp [encode, isSet])
    · exact .inr ⟨putBytes assetId.toList ++ putU128 cap ++ putU128 epochCap, flag, unset, isSet,
        by simp⟩
  case h_17 => exact absurd reads reads_failure
  all_goals
    simp only [inverts_u8.reads_bind, inverts_u32.reads_bind, inverts_u64.reads_bind,
      inverts_bytes.reads_bind, inverts_hash.reads_bind, GuardianSet.inverts_decode.reads_bind,
      CommitteeRotation.inverts_decode.reads_bind, (inverts_list inverts_bytes).reads_bind,
      (inverts_list Seizure.inverts_decode).reads_bind, reads_pure] at reads
    grind [encode]

end Action

/-! ## Stored records -/

theorem Tally.inverts_decode : Inverts decode encode fun _ => True :=
  .ofFields (by simp [encode]) (by simp) <|
    inverts_u128.field ayeStake fun _ =>
    inverts_u128.field nayStake fun _ =>
    inverts_u128.field ayeWeight fun _ =>
    inverts_u128.field nayWeight fun _ =>
    inverts_record fun record => by cases record; simp [and_assoc]

/-- The part of a tally that was stored before weights were counted. -/
def Tally.encodeLegacy (tally : Tally) : Bytes := putU128 tally.ayeStake ++ putU128 tally.nayStake

/-- The tally that such a part stands for. -/
def Tally.unweighted (tally : Tally) : Tally :=
  { tally with ayeWeight := tally.ayeStake, nayWeight := tally.nayStake }

theorem inverts_legacyTally :
    Inverts legacyTally Tally.encodeLegacy fun tally => tally = tally.unweighted := by
  intro input tally rest
  simp only [legacyTally, inverts_u128.reads_bind, reads_pure]
  constructor
  · rintro ⟨aye, _, -, rfl, nay, _, -, rfl, rfl, rfl⟩
    exact ⟨rfl, by simp [Tally.encodeLegacy]⟩
  · rintro ⟨same, rfl⟩
    exact ⟨_, _, trivial, List.append_assoc .., _, _, trivial, rfl, same.symm, rfl⟩

namespace Referendum

variable {putTally : Tally → Bytes} {readTally : Reader Tally} {limits : Tally → Prop}

/-- What is stored of a referendum before its last byte. -/
def stem (putTally : Tally → Bytes) (referendum : Referendum) : Bytes :=
  putU64 referendum.id ++ (putU8 referendum.track.code ++ (putBytes referendum.proposer ++
    (putU64 referendum.deposit ++ (putU64 referendum.submittedAt ++ (putTally referendum.tally ++
      putU8 referendum.status.code)))))

theorem encodeWith_eq (referendum : Referendum) :
    encodeWith putTally referendum = referendum.stem putTally ++ putFlag referendum.killed := by
  simp [encodeWith, stem]

/-- A referendum is read from its stem and any byte that stands for its flag. -/
theorem reads_decodeWith (inverts : Inverts readTally putTally limits) {input rest : Bytes}
    {referendum : Referendum} :
    Reads (decodeWith readTally) input referendum rest ↔
      (referendum.proposer.length < 2 ^ 64 ∧ limits referendum.tally) ∧ ∃ flag : UInt8,
        referendum.killed = (flag != 0) ∧ input = referendum.stem putTally ++ putU8 flag ++ rest := by
  constructor
  · simp only [decodeWith, inverts_u64.reads_bind, inverts_u8.reads_bind, inverts_bytes.reads_bind,
      inverts.reads_bind, reads_bind, reads_lift, Track.fromCode_eq_some, Status.fromCode_eq_some,
      reads_pure]
    rintro ⟨id, _, -, rfl, _, _, -, rfl, track, _, ⟨rfl, rfl⟩, proposer, _, short, rfl, deposit, _, -,
      rfl, submittedAt, _, -, rfl, tally, _, fitting, rfl, _, _, -, rfl, status, _, ⟨rfl, rfl⟩, flag,
      _, -, rfl, rfl, rfl⟩
    exact ⟨⟨short, fitting⟩, flag, rfl, by simp [stem]⟩
  · rintro ⟨⟨short, fitting⟩, flag, killed, rfl⟩
    simp only [stem, List.append_assoc]
    refine inverts_u64.andThen trivial (inverts_u8.andThen trivial (reads_bind.mpr ⟨_, _,
      reads_lift.mpr ⟨(Track.fromCode_eq_some _ _).mpr rfl, rfl⟩, ?_⟩))
    refine inverts_bytes.andThen short (inverts_u64.andThen trivial (inverts_u64.andThen trivial
      (inverts.andThen fitting (inverts_u8.andThen trivial (reads_bind.mpr ⟨_, _,
        reads_lift.mpr ⟨(Status.fromCode_eq_some _ _).mpr rfl, rfl⟩, ?_⟩)))))
    exact inverts_u8.andThen trivial (reads_pure.mpr ⟨by rw [← killed], rfl⟩)

/-- What is written for a referendum is read back. -/
theorem whole_encodeWith (inverts : Inverts readTally putTally limits) {referendum : Referendum}
    (short : referendum.proposer.length < 2 ^ 64) (fitting : limits referendum.tally) :
    Reader.whole (decodeWith readTally) (encodeWith putTally referendum) = some referendum := by
  refine whole_iff_reads.mpr ((reads_decodeWith inverts).mpr ⟨⟨short, fitting⟩, _, ?_,
    (encodeWith_eq referendum).trans (List.append_nil _).symm⟩)
  cases referendum.killed <;> rfl

/-- Up to the tally, the bytes of a referendum are the same in every format. -/
theorem stem_injective {first second : Referendum} {putOther : Tally → Bytes} {rest after : Bytes}
    (short : first.proposer.length < 2 ^ 64) (shortAgain : second.proposer.length < 2 ^ 64)
    (same : first.stem putTally ++ rest = second.stem putOther ++ after) :
    (putTally first.tally).length + rest.length = (putOther second.tally).length + after.length := by
  simp only [stem, List.append_assoc] at same
  obtain ⟨-, same⟩ := inverts_u64.injective trivial trivial same
  obtain ⟨-, same⟩ := inverts_u8.injective trivial trivial same
  obtain ⟨-, same⟩ := inverts_bytes.injective short shortAgain same
  obtain ⟨-, same⟩ := inverts_u64.injective trivial trivial same
  obtain ⟨-, same⟩ := inverts_u64.injective trivial trivial same
  have lengths := congrArg List.length same
  simp only [List.length_append, putU8, List.length_singleton] at lengths
  omega

end Referendum

theorem EnactmentReceipt.inverts_decodeWith {putTally : Tally → Bytes} {readTally : Reader Tally}
    {limits : Tally → Prop} (inverts : Inverts readTally putTally limits) :
    Inverts (decodeWith readTally) (encodeWith putTally) fun receipt => limits receipt.tally :=
  .ofFields (by simp [encodeWith]) (by simp) <|
    inverts_u64.field referendum fun _ =>
    inverts_hash.field proposalHash fun _ =>
    inverts_hash.field scope fun _ =>
    inverts.field tally fun _ =>
    inverts_u64.field enactedAt fun _ =>
    inverts_record fun record => by cases record; simp [and_assoc]

/-- Bytes that end in a flag as it is written, which is zero or one. -/
def EndsInFlag (bytes : Bytes) : Prop := bytes.getLast? = some 0 ∨ bytes.getLast? = some 1

theorem endsInFlag_append (stem : Bytes) (flag : UInt8) :
    EndsInFlag (stem ++ putU8 flag) ↔ flag = 0 ∨ flag = 1 := by
  simp [EndsInFlag, putU8]

theorem endsInFlag_putFlag (stem : Bytes) (flag : Bool) : EndsInFlag (stem ++ putFlag flag) := by
  cases flag <;> simp [EndsInFlag, putFlag, putU8]

/-- Only registrations are written with their code, and their flag is what they end in. -/
theorem Action.encode_endsInFlag {action : Action} (registers : action.encode.head? = some 14) :
    EndsInFlag action.encode := by
  cases action
  case assetRegister => exact endsInFlag_putFlag _ _
  all_goals simp [encode, putU8] at registers

/-- Actions and referenda are read back. Bytes that are read, with none left over, are the encoding
of what they are read as exactly when the flag is zero or one, which is the last byte of an
`AssetRegister` action and of a referendum; all other actions have no flag and one spelling. That
flag is all that a reader forgets. -/
theorem governance_records_canonical (action : Action) (referendum : Referendum) (bytes : Bytes) :
    (action.Fits → Reader.whole Action.decode action.encode = some action) ∧
      (referendum.proposer.length < 2 ^ 64 →
        Reader.whole Referendum.decode referendum.encode = some referendum) ∧
      (Reader.whole Action.decode bytes = some action →
        (action.encode = bytes ↔ (bytes.head? = some 14 → EndsInFlag bytes))) ∧
      (Reader.whole Referendum.decode bytes = some referendum →
        (referendum.encode = bytes ↔ EndsInFlag bytes)) := by
  refine ⟨fun fits => ?_, fun short => ?_, fun read => ⟨?_, fun plain => ?_⟩, fun read => ?_⟩
  · have reads := Action.reads_encode fits []
    rw [List.append_nil] at reads
    exact whole_iff_reads.mpr reads
  · exact Referendum.whole_encodeWith Tally.inverts_decode short trivial
  · rintro rfl
    exact Action.encode_endsInFlag
  · rcases Action.reads_decode (whole_iff_reads.mp read) with written | ⟨shown, flag, unset, isSet, rfl⟩
    · rw [written, List.append_nil]
    · rw [List.append_nil, endsInFlag_append] at plain
      exact absurd (plain rfl) (not_or.mpr ⟨unset, isSet⟩)
  · obtain ⟨-, flag, killed, rfl⟩ :=
      (Referendum.reads_decodeWith Tally.inverts_decode).mp (whole_iff_reads.mp read)
    rw [List.append_nil, Referendum.encode, Referendum.encodeWith_eq]
    refine ⟨fun same => same ▸ endsInFlag_putFlag _ _, fun plain => ?_⟩
    rw [killed]
    rcases (endsInFlag_append _ _).mp plain with rfl | rfl <;> rfl

/-- The registration of an asset and a referendum with the byte two for a flag. -/
theorem flags_are_respelled :
    (∃ bytes action, Reader.whole Action.decode bytes = some action ∧ action.encode ≠ bytes) ∧
      ∃ bytes referendum, Reader.whole Referendum.decode bytes = some referendum ∧
        referendum.encode ≠ bytes := by
  refine ⟨⟨(Action.assetRegister (Vector.replicate 16 1) 0 0 true).encode.dropLast ++ [2],
    .assetRegister (Vector.replicate 16 1) 0 0 true, ?_, ?_⟩,
    ⟨({ Referendum.openReferendum 0 .mint [] 0 0 with
        killed := true } : Referendum).encode.dropLast ++ [2],
      { Referendum.openReferendum 0 .mint [] 0 0 with killed := true }, ?_, ?_⟩⟩ <;>
    decide +kernel

/-- A record in the format without weights is none in the format with them. -/
theorem Referendum.whole_legacy {referendum : Referendum}
    (short : referendum.proposer.length < 2 ^ 64) :
    Reader.whole decode (referendum.encodeWith Tally.encodeLegacy) = none := by
  refine Option.eq_none_iff_forall_ne_some.mpr fun found read => ?_
  obtain ⟨⟨shortAgain, -⟩, flag, -, same⟩ :=
    (reads_decodeWith Tally.inverts_decode).mp (whole_iff_reads.mp read)
  rw [encodeWith_eq, List.append_assoc] at same
  have lengths := stem_injective short shortAgain same
  simp [Tally.encode, Tally.encodeLegacy, putU128, putFlag, putU8] at lengths

theorem EnactmentReceipt.whole_legacy (receipt : EnactmentReceipt) :
    Reader.whole decode (receipt.encodeWith Tally.encodeLegacy) = none := by
  refine Option.eq_none_iff_forall_ne_some.mpr fun found read => ?_
  obtain ⟨-, same⟩ := (whole_eq_some (inverts_decodeWith Tally.inverts_decode)).mp read
  have lengths := congrArg List.length same
  simp [encodeWith, Tally.encode, Tally.encodeLegacy, putU128, putU64, putBytes] at lengths

/-- Records in either format are read as what they stand for, and no bytes are a record in both. The
tallies differ in length, so neither reader ends where the other does. -/
theorem stored_records_unambiguous :
    (∀ referendum : Referendum, referendum.proposer.length < 2 ^ 64 →
        referendumFromStored referendum.encode = some referendum ∧
          referendumFromStored (referendum.encodeWith Tally.encodeLegacy) =
            some { referendum with tally := referendum.tally.unweighted }) ∧
      (∀ current legacy : Referendum, current.proposer.length < 2 ^ 64 →
        legacy.proposer.length < 2 ^ 64 → current.encode ≠ legacy.encodeWith Tally.encodeLegacy) ∧
      (∀ receipt : EnactmentReceipt, receiptFromStored receipt.encode = some receipt ∧
        receiptFromStored (receipt.encodeWith Tally.encodeLegacy) =
          some { receipt with tally := receipt.tally.unweighted }) ∧
      ∀ current legacy : EnactmentReceipt, current.encode ≠ legacy.encodeWith Tally.encodeLegacy := by
  have referendumRead {referendum : Referendum} (short : referendum.proposer.length < 2 ^ 64) :
      Reader.whole Referendum.decode referendum.encode = some referendum :=
    Referendum.whole_encodeWith Tally.inverts_decode short trivial
  have receiptRead (receipt : EnactmentReceipt) :
      Reader.whole EnactmentReceipt.decode receipt.encode = some receipt :=
    (whole_eq_some (EnactmentReceipt.inverts_decodeWith Tally.inverts_decode)).mpr ⟨trivial, rfl⟩
  refine ⟨fun referendum short => ⟨?_, ?_⟩, fun current legacy short shortAgain same => ?_,
    fun receipt => ⟨?_, ?_⟩, fun current legacy same => ?_⟩
  · rw [referendumFromStored, referendumRead short]
  · rw [referendumFromStored, Referendum.whole_legacy short]
    have short : ({ referendum with tally := referendum.tally.unweighted } :
      Referendum).proposer.length < 2 ^ 64 := short
    exact Referendum.whole_encodeWith inverts_legacyTally short rfl
  · have read := referendumRead short
    rw [same, Referendum.whole_legacy shortAgain] at read
    cases read
  · rw [receiptFromStored, receiptRead]
  · rw [receiptFromStored, EnactmentReceipt.whole_legacy]
    exact (whole_eq_some (EnactmentReceipt.inverts_decodeWith inverts_legacyTally)).mpr ⟨rfl, rfl⟩
  · have read := receiptRead current
    rw [same, EnactmentReceipt.whole_legacy] at read
    cases read

end QuantovaChain.Governance
