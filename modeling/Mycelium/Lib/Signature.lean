import Mathlib.Tactic

/-!
# Lib — ideal signature schemes

A signature scheme, and what it means for it to be *ideal*: a signature verifies for
exactly the key that made it and exactly the message it was made for.

* `SigScheme.Ideal` — the three laws (completeness, soundness, binding);
* `Ideal.verify_iff` — their joint reading: once `s` is known to be a signature of `m`
  under `sk`, verification of `s` is *equality* of the public key and of the message;
* `SigScheme.SignsOnly` — a key's whole signing history lies in a given set of messages.
-/

/-- A signature scheme over secret keys, public keys, messages and signatures. Signing
may fail. -/
structure SigScheme (SK PK M S : Type) where
  pub : SK → PK
  sign : SK → M → Option S
  verify : PK → M → S → Bool

namespace SigScheme

variable {SK PK M S : Type} (sch : SigScheme SK PK M S)

/-- Verification succeeds exactly for the messages the key signed. -/
structure Ideal : Prop where
  complete : ∀ {sk m s}, sch.sign sk m = some s → sch.verify (sch.pub sk) m s = true
  sound : ∀ {pk m s}, sch.verify pk m s = true →
    ∃ sk, sch.pub sk = pk ∧ sch.sign sk m = some s
  binding : ∀ {sk sk' m m' s}, sch.sign sk m = some s → sch.sign sk' m' = some s →
    sch.pub sk = sch.pub sk' ∧ m = m'

/-- Everything that verifies under `pk` is one of the messages in `signed`: the holder of
the key signs nothing else, and nobody else can. -/
def SignsOnly (pk : PK) (signed : M → Prop) : Prop :=
  ∀ m s, sch.verify pk m s = true → signed m

variable {sch}

/-- For a signature of `m` made with `sk`, verifying it against `pk` and `m'` is the same
as comparing the keys and the messages. -/
theorem Ideal.verify_iff (hI : sch.Ideal) {sk : SK} {m : M} {s : S}
    (hs : sch.sign sk m = some s) (pk : PK) (m' : M) :
    sch.verify pk m' s = true ↔ pk = sch.pub sk ∧ m' = m := by
  constructor
  · intro hv
    obtain ⟨sk', hpk, hs'⟩ := hI.sound hv
    obtain ⟨hpub, hm⟩ := hI.binding hs' hs
    exact ⟨hpk.symm.trans hpub, hm⟩
  · rintro ⟨rfl, rfl⟩
    exact hI.complete hs

end SigScheme
