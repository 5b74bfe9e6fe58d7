import QuantovaChain.Library.Memo
import QuantovaChain.Platform
import QuantovaChain.Tx.Identity

/-!
# The cache of verified signatures

A node remembers the transactions whose signatures it found good, by a hash over its genesis, the
transaction's identifier and the key. The identifier covers body, scheme and signature, so that what
is remembered answers only for a verification that would succeed again.
-/

namespace QuantovaChain

open State (Bytes Hash)
open Codec

namespace Tx

variable [Platform]

theorem Wrapper.Same.verify {first second : Wrapper} (same : first.Same second)
    (publicKey : Bytes) (genesis : Hash) :
    Tx.verify first publicKey genesis = Tx.verify second publicKey genesis := by
  simp only [Tx.verify, bodyDigest, same.body.encode, same.scheme, same.signature]

end Tx

namespace Node.SigCache

open Tx (Wrapper)

def generation : Nat := 131072

/-- The genesis of the process, once bound, and the entries it verified. -/
structure Cache where
  genesis : Option Hash := none
  verified : Memo Hash := {}

/-- Binds the genesis if none is bound, and fails with the bound one if that is another. -/
def bindGenesis (hash : Hash) (cache : Cache) : Except Hash Unit × Cache :=
  let bound := cache.genesis.getD hash
  (if bound = hash then .ok () else .error bound, { cache with genesis := some bound })

variable [Platform]

def entryInput (wrapper : Wrapper) (publicKey : Bytes) (genesis : Hash) : Bytes :=
  let id := wrapper.id Platform.sha3
  genesis.toList ++ putBytes id ++ putBytes publicKey

def entry (wrapper : Wrapper) (publicKey : Bytes) (genesis : Hash) : Hash :=
  Platform.sha3 (entryInput wrapper publicKey genesis)

/-- Verifies through the cache. Without a genesis nothing is good. -/
def verify (wrapper : Wrapper) (publicKey : Bytes) (cache : Cache) : Bool × Cache :=
  match cache.genesis with
  | none => (false, cache)
  | some genesis =>
    let (ok, verified) := cache.verified.ask generation (entry wrapper publicKey genesis)
      (Tx.verify wrapper publicKey genesis)
    (ok, { cache with verified })

/-- The answers to a sequence of calls. -/
def verifyAll : List (Wrapper × Bytes) → Cache → List Bool
  | [], _ => []
  | call :: calls, cache =>
    let (ok, cache) := verify call.1 call.2 cache
    ok :: verifyAll calls cache

/-- A call whose transaction and key have lengths that fit their words. -/
def Sized (call : Wrapper × Bytes) : Prop := call.1.Sized ∧ call.2.length < 2 ^ 64

/-- What is hashed to identify the calls. -/
def hashed (genesis : Hash) (calls : List (Wrapper × Bytes)) : Set Bytes :=
  {input | ∃ call ∈ calls, input = call.1.encode ∨ input = entryInput call.1 call.2 genesis}

variable {genesis : Hash} {calls : List (Wrapper × Bytes)}

/-- Calls with one entry are verified alike. -/
theorem verify_of_entry
    (injective : Set.InjOn Platform.sha3 (hashed genesis calls)) {first second : Wrapper × Bytes}
    (called : first ∈ calls) (calledAgain : second ∈ calls) (sized : Sized first)
    (sizedAgain : Sized second)
    (same : entry first.1 first.2 genesis = entry second.1 second.2 genesis) :
    Tx.verify first.1 first.2 genesis = Tx.verify second.1 second.2 genesis := by
  have inputs := injective ⟨first, called, .inr rfl⟩ ⟨second, calledAgain, .inr rfl⟩ same
  simp only [entryInput, List.append_assoc] at inputs
  have short (wrapper : Wrapper) : (wrapper.id Platform.sha3).length < 2 ^ 64 :=
    (Idfmt.readable_hrpTx.render_short Vector.length_toList).trans_lt (by decide)
  obtain ⟨ids, keys⟩ := Reader.inverts_bytes.injective (short _) (short _)
    (List.append_cancel_left inputs)
  have keys := Reader.inverts_bytes.injective_whole sized.2 sizedAgain.2 keys
  have pair : Set.InjOn Platform.sha3 {first.1.encode, second.1.encode} := by
    refine injective.mono ?_
    rintro input (rfl | rfl)
    · exact ⟨first, called, .inl rfl⟩
    · exact ⟨second, calledAgain, .inl rfl⟩
  have wrappers := (Tx.Wrapper.id_eq_iff sized.1 sizedAgain.1 pair).mp ids
  rw [keys]
  exact wrappers.verify second.2 genesis

/-- The entries are those of calls that verify. -/
def Sound (genesis : Hash) (calls : List (Wrapper × Bytes)) (cache : Cache) : Prop :=
  cache.genesis = some genesis ∧ cache.verified.Keeps fun key =>
    ∃ call ∈ calls, Tx.verify call.1 call.2 genesis ∧ key = entry call.1 call.2 genesis

/-- One call answers as the plain verification does, and leaves the cache sound. -/
theorem Sound.verify {cache : Cache}
    (sound : Sound genesis calls cache) (sized : ∀ call ∈ calls, Sized call)
    (injective : Set.InjOn Platform.sha3 (hashed genesis calls)) {call : Wrapper × Bytes}
    (called : call ∈ calls) :
    (SigCache.verify call.1 call.2 cache).1 = Tx.verify call.1 call.2 genesis ∧
      Sound genesis calls (SigCache.verify call.1 call.2 cache).2 := by
  have determined : (∃ other ∈ calls, Tx.verify other.1 other.2 genesis ∧
      entry call.1 call.2 genesis = entry other.1 other.2 genesis) →
      Tx.verify call.1 call.2 genesis := by
    rintro ⟨other, calledOther, good, same⟩
    rwa [verify_of_entry injective called calledOther (sized _ called) (sized _ calledOther) same]
  have asked := sound.2.ask generation determined fun good => ⟨call, called, good, rfl⟩
  simp only [SigCache.verify, sound.1]
  exact ⟨asked.1, rfl, asked.2⟩

/-- A sound cache answers every sequence of its calls as the plain verification does. -/
theorem Sound.verifyAll {known : List (Wrapper × Bytes)} (sized : ∀ call ∈ known, Sized call)
    (injective : Set.InjOn Platform.sha3 (hashed genesis known))
    (called : calls ⊆ known) {cache : Cache} (sound : Sound genesis known cache) :
    SigCache.verifyAll calls cache =
      calls.map fun call => Tx.verify call.1 call.2 genesis := by
  induction calls generalizing cache with
  | nil => rfl
  | cons call calls hypothesis =>
    obtain ⟨first, others⟩ := List.cons_subset.mp called
    obtain ⟨answered, kept⟩ := sound.verify sized injective first
    simp only [SigCache.verifyAll, List.map_cons, answered, hypothesis others kept]

/-- The cache is transparent. Once the genesis is bound, every sequence of calls is answered as the
plain verification answers it, however many generations it fills, if the hash does not collide on
what identifies the calls. By induction on the calls, every entry of the cache is of a call that
verifies. -/
theorem verification_transparent (genesis : Hash) (calls : List (Wrapper × Bytes))
    (sized : ∀ call ∈ calls, Sized call)
    (injective : Set.InjOn Platform.sha3 (hashed genesis calls)) :
    verifyAll calls (bindGenesis genesis {}).2 =
      calls.map fun call => Tx.verify call.1 call.2 genesis :=
  Sound.verifyAll sized injective (List.Subset.refl calls) ⟨rfl, Memo.keeps_empty⟩

end Node.SigCache

namespace Node.SigCache

open Tx (Wrapper)

/-- A platform with an empty key and signature that are good, where the hash is the length. -/
@[reducible] def lengthPlatform : Platform :=
  { Platform.blank with
    sha3 := fun input => Vector.replicate 32 (UInt8.ofNat input.length)
    mlDsaVerifyStrict := fun _ _ _ _ => true }

def repeated : List (Wrapper × Bytes) := [(Tx.sentBy [], []), (Tx.sentBy [], [])]

/-- A transaction that is verified twice. -/
theorem repeated_answers :
    @verifyAll lengthPlatform repeated (bindGenesis (Vector.replicate 32 0) {}).2 =
      repeated.map fun call =>
        @Tx.verify lengthPlatform call.1 call.2 (Vector.replicate 32 0) := by
  have same {call : Wrapper × Bytes} (called : call ∈ repeated) : call = (Tx.sentBy [], []) := by
    simpa [repeated] using called
  refine @verification_transparent lengthPlatform _ repeated (fun call called => ?_) ?_
  · rw [same called]
    exact ⟨Tx.sized_sentBy (by decide), by decide⟩
  · have apart : lengthPlatform.sha3 (Tx.sentBy []).encode ≠
        lengthPlatform.sha3 (@entryInput lengthPlatform (Tx.sentBy []) [] (Vector.replicate 32 0)) := by
      decide +kernel
    rintro _ ⟨call, called, first⟩ _ ⟨other, calledOther, second⟩ hashes
    rw [same called] at first
    rw [same calledOther] at second
    obtain rfl | rfl := first <;> obtain rfl | rfl := second
    · rfl
    · exact absurd hashes apart
    · exact absurd hashes.symm apart
    · rfl

end Node.SigCache

end QuantovaChain
