/-
  SpendScript.Proofs.Cache — remembered checks are answered as they would be afresh.

  A check is remembered under the script code, the kind of digest, the key and the item on the
  stack. The decoded signature that is checked is no part of this. It is not needed: the
  rules decide only whether an item is decoded, and never to what (`Decoded.decode_unique`).
  So a check whose signature was decoded from its item, by whatever rules, is known by what
  it is remembered under (`EcdsaCheck.eq_of_cacheKey_eq`).
  - `InputView.Sound`: every remembered answer is the answer to such a check.
  - `InputView.responder_of_sound`: from sound memory a question is answered as by the oracle,
    and the memory stays sound.
  - `InputView.replies_eq_fresh`: so in any row of questions each is answered as if it came
    first.
-/

import SpendScript.Checker
import SpendScript.Proofs.Dialogue

namespace SpendScript

/-! ## Decoding -/

theorem HashType.read_eq_ok {strict : Bool} {bits : UInt8} {t : HashType} (h : HashType.read strict bits = .ok t) :
    t = ⟨bits⟩ := by
  simp only [HashType.read] at h
  split at h
  · cases h
  · split at h
    · cases h
    · cases h
      rfl

namespace Decoded

variable {rules rules' : EncodingRules} {item : Bytes} {d d' : Decoded}

/-- A signature is made of the lax reading of the item and its last byte, whatever the rules. -/
theorem decode_eq_some (h : decode rules item = .ok (some d)) :
    ∃ last, item.getLast? = some last ∧ ofParts? item.dropLast ⟨last⟩ = some d := by
  cases hl : item.getLast? with
  | none =>
    rw [decode, hl] at h
    cases h
  | some last =>
    rw [decode_of_getLast? rules hl] at h
    obtain ⟨-, -, h⟩ := bind_eq_ok.mp h
    split at h
    · cases h
    · obtain ⟨t, ht, h⟩ := bind_eq_ok.mp h
      cases hread : HashType.read rules.strict last with
      | error e => rw [hread] at ht; cases ht
      | ok t' =>
        rw [hread] at ht
        cases ht
        rw [HashType.read_eq_ok hread] at h
        exact ⟨last, rfl, Except.ok.inj h⟩

/-- Different rules never decode an item to different signatures. -/
theorem decode_unique (h : decode rules item = .ok (some d)) (h' : decode rules' item = .ok (some d')) : d = d' := by
  obtain ⟨last, hl, hd⟩ := decode_eq_some h
  obtain ⟨last', hl', hd'⟩ := decode_eq_some h'
  rw [hl] at hl'
  cases hl'
  exact Option.some.inj (hd.symm.trans hd')

end Decoded

/-- The signature that is checked was decoded from the item, by some rules. -/
def EcdsaCheck.Decodes (c : EcdsaCheck) : Prop := ∃ rules, Decoded.decode rules c.item = .ok (some c.sig)

/-- Such a check is known by what it is remembered under. -/
theorem EcdsaCheck.eq_of_cacheKey_eq {c c' : EcdsaCheck} (h : c.Decodes) (h' : c'.Decodes)
    (hkey : InputView.cacheKey c = InputView.cacheKey c') : c = c' := by
  obtain ⟨item, sig, key, code, version⟩ := c
  obtain ⟨item', sig', key', code', version'⟩ := c'
  cases hkey
  obtain ⟨rules, h⟩ := h
  obtain ⟨rules', h'⟩ := h'
  rw [show sig = sig' from Decoded.decode_unique h h']

/-! ## One question -/

namespace InputView

variable {v : InputView} {cache : Cache}

/-- Every entry is the answer to a check whose signature was decoded from its item. -/
def Sound (v : InputView) (cache : Cache) : Prop :=
  ∀ entry ∈ cache, ∃ c : EcdsaCheck, c.Decodes ∧ cacheKey c = entry.1 ∧ v.checkEcdsa c = entry.2

theorem sound_nil (v : InputView) : v.Sound [] := by
  intro entry hentry
  cases hentry

theorem Sound.cons (hs : v.Sound cache) {c : EcdsaCheck} (hc : c.Decodes) :
    v.Sound ((cacheKey c, v.checkEcdsa c) :: cache) := by
  intro entry hentry
  rcases List.mem_cons.mp hentry with rfl | hentry
  · exact ⟨c, hc, rfl, rfl⟩
  · exact hs entry hentry

/-- What is found is the answer to the check itself. -/
theorem Sound.lookup (hs : v.Sound cache) {c : EcdsaCheck} (hc : c.Decodes) {result : Bool}
    (h : cache.lookup (cacheKey c) = some result) : result = v.checkEcdsa c := by
  obtain ⟨before, after, rfl, -⟩ := List.lookup_eq_some_iff.mp h
  obtain ⟨c', hc', hkey, hresult⟩ := hs (cacheKey c, result) (by simp)
  rw [EcdsaCheck.eq_of_cacheKey_eq hc hc' hkey.symm]
  exact hresult.symm

theorem cachedEcdsa_of_sound (hs : v.Sound cache) {c : EcdsaCheck} (hc : c.Decodes) :
    (v.cachedEcdsa c cache).answer = v.oracle (.ecdsa c) ∧ v.Sound (v.cachedEcdsa c cache).state := by
  unfold cachedEcdsa oracle
  dsimp only
  split
  · split
    · rename_i result hfound
      exact ⟨hs.lookup hc hfound, hs⟩
    · exact ⟨rfl, hs.cons hc⟩
  · exact ⟨rfl, hs⟩

/-- Only the answers to ECDSA checks are remembered. -/
theorem responder_of_sound (hs : v.Sound cache) {q : Query} (hq : ∀ c, q = .ecdsa c → c.Decodes) :
    (v.responder q cache).answer = v.oracle q ∧ v.Sound (v.responder q cache).state := by
  cases q with
  | ecdsa c => exact cachedEcdsa_of_sound hs (hq c rfl)
  | schnorr c | lockTime n | sequence n =>
    simp only [responder, oracle, true_and]
    exact hs

/-- Who remembers nothing answers as the oracle does, whatever the signature. -/
theorem responder_nil (v : InputView) (q : Query) : (v.responder q []).answer = v.oracle q := by
  cases q with
  | ecdsa c =>
    show (v.cachedEcdsa c []).answer = v.oracle (.ecdsa c)
    unfold cachedEcdsa oracle
    dsimp only
    split <;> rfl
  | schnorr c | lockTime n | sequence n => simp only [responder, oracle]

end InputView

/-! ## Questions in a row -/

/-- The answers to one question after the other, each given in the state that the ones before
    it left. -/
def Responder.replies {σ : Type} (r : Responder σ) : σ → List Query → List ((q : Query) × q.Answer)
  | _, [] => []
  | s, q :: qs => ⟨q, (r q s).answer⟩ :: Responder.replies r (r q s).state qs

namespace InputView

theorem replies_of_sound {v : InputView} {cache : Cache} (hs : v.Sound cache) {qs : List Query}
    (hq : ∀ c, Query.ecdsa c ∈ qs → c.Decodes) :
    Responder.replies v.responder cache qs = qs.map fun q => ⟨q, v.oracle q⟩ := by
  induction qs generalizing cache with
  | nil => rfl
  | cons q qs ih =>
    obtain ⟨hanswer, hsound⟩ := responder_of_sound hs fun c h => hq c (h ▸ List.mem_cons_self)
    have hrest := ih hsound fun c h => hq c (List.mem_cons_of_mem q h)
    rw [Responder.replies, List.map_cons, hanswer, hrest]

/-- In any row of questions, where each signature was decoded from its item by whatever rules,
    each is answered as by one who is asked nothing else. -/
theorem replies_eq_fresh (v : InputView) (qs : List Query) (h : ∀ c, Query.ecdsa c ∈ qs → c.Decodes) :
    Responder.replies v.responder [] qs = qs.map fun q => ⟨q, (v.responder q []).answer⟩ := by
  rw [replies_of_sound (sound_nil v) h]
  simp only [responder_nil]

/-- The same signature, decoded strictly for a bare script and by no rules for a witness script:
    when the first question comes again it is answered from memory, and alike. -/
theorem replies_eq_fresh_repeated :
    ∃ (v : InputView) (c c' : EcdsaCheck) (result : Bool), c.version ≠ c'.version ∧
      (v.responder (.ecdsa c) (v.responder (.ecdsa c') (v.responder (.ecdsa c) []).state).state).events =
        [.cacheHit result] ∧
      Responder.replies v.responder [] [.ecdsa c, .ecdsa c', .ecdsa c] =
        [⟨.ecdsa c, (v.responder (.ecdsa c) []).answer⟩, ⟨.ecdsa c', (v.responder (.ecdsa c') []).answer⟩,
          ⟨.ecdsa c, (v.responder (.ecdsa c) []).answer⟩] := by
  have h : ∃ (v : InputView) (c c' : EcdsaCheck) (result : Bool), c.Decodes ∧ c'.Decodes ∧ c.version ≠ c'.version ∧
      (v.responder (.ecdsa c) (v.responder (.ecdsa c') (v.responder (.ecdsa c) []).state).state).events =
        [.cacheHit result] :=
    ⟨⟨⟨2, [⟨⟨Block.zero 32, 0⟩, [], 7, []⟩], [⟨5, [0x51]⟩], 0⟩, 0, 9,
        Digest.TxHashes.of ⟨2, [⟨⟨Block.zero 32, 0⟩, [], 7, []⟩], [⟨5, [0x51]⟩], 0⟩ none⟩,
      ⟨[0x30, 6, 2, 1, 1, 2, 1, 1, 1], ⟨⟨1, 1⟩, .all⟩, 0x02 :: List.replicate 32 1, [0xac], .base⟩,
      ⟨[0x30, 6, 2, 1, 1, 2, 1, 1, 1], ⟨⟨1, 1⟩, .all⟩, 0x02 :: List.replicate 32 1, [0xac], .witnessV0⟩,
      _, ⟨⟨true, true, true⟩, rfl⟩, ⟨⟨false, false, false⟩, rfl⟩, by decide, rfl⟩
  obtain ⟨v, c, c', result, hc, hc', hversion, hhit⟩ := h
  refine ⟨v, c, c', result, hversion, hhit, replies_eq_fresh v _ ?_⟩
  intro d hd
  simp only [List.mem_cons, Query.ecdsa.injEq, List.not_mem_nil, or_false] at hd
  rcases hd with rfl | rfl | rfl
  · exact hc
  · exact hc'
  · exact hc

end InputView

end SpendScript
