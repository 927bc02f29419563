import RuleBaseProxy.Transport.VmessBody
import Mathlib.Data.List.Nodup

/-! # The nonces of a vmess writer

`aeadWriter` makes the nonce of a chunk from a counter of 16 bits and a part of
the IV that does not change. It seals under one key for the whole connection,
and nothing stops it when the counter has gone round.
-/

namespace RuleBaseProxy.Vmess

open Go

/-! ## How many chunks are sealed -/

def chunkCount (limit len : Nat) : Nat := (len + limit - 1) / limit

/-- How many of them are sealed: on a connection that fails, those it takes and the
one it fails at. -/
def sealedBy (limit : Nat) (room : Option Nat) (len : Nat) : Nat :=
  match room with
  | none => chunkCount limit len
  | some k => if chunkCount limit len ≤ k then chunkCount limit len else k + 1

def sealCount (limit : Nat) : Option Nat → List Str → Nat
  | _, [] => 0
  | room, b :: bs =>
      sealedBy limit room b.length +
        sealCount limit (room.map (· - chunkCount limit b.length)) bs

theorem sealCount_none (limit : Nat) (bs : List Str) :
    sealCount limit none bs = (bs.map fun b => chunkCount limit b.length).sum := by
  induction bs with
  | nil => rfl
  | cons b bs ih =>
      rw [sealCount, List.map_cons, List.sum_cons]
      exact congrArg _ ih

@[simp] theorem chunkCount_zero {limit : Nat} (hlimit : 0 < limit) : chunkCount limit 0 = 0 := by
  rw [chunkCount, Nat.zero_add]
  exact Nat.div_eq_of_lt (by omega)

theorem chunkCount_drop {limit : Nat} {b : Str} (hlimit : 0 < limit) (hb : b ≠ []) :
    chunkCount limit b.length = chunkCount limit (b.drop (readLen limit b)).length + 1 := by
  have hpos := List.length_pos_iff.mpr hb
  rw [List.length_drop]
  unfold chunkCount readLen
  by_cases hlt : b.length < limit
  · have hrest : (limit - 1) / limit = 0 := Nat.div_eq_of_lt (by omega)
    have hone : (b.length + limit - 1) / limit = 1 := Nat.div_eq_of_lt_le (by omega) (by omega)
    rw [if_pos hlt, Nat.sub_self, Nat.zero_add, hrest, hone]
  · rw [if_neg hlt]
    have hsum : b.length + limit - 1 = b.length - limit + limit - 1 + limit := by omega
    rw [hsum, Nat.add_div_right _ hlimit]

def AEADWriter.HasSealed (a : AEAD) (iv : Str) (m : Nat) (w : AEADWriter) : Prop :=
  w.count = UInt16.ofNat m ∧ w.nonces = (List.range m).map fun i => a.nonce iv (UInt16.ofNat i)

theorem AEADWriter.HasSealed.succ {a : AEAD} {iv : Str} {m : Nat} {w : AEADWriter}
    (h : w.HasSealed a iv m) :
    AEADWriter.HasSealed a iv (m + 1) ⟨w.count + 1, w.nonces ++ [a.nonce iv w.count]⟩ := by
  obtain ⟨hcount, hnonces⟩ := h
  constructor
  · rw [hcount, UInt16.ofNat_add]
    rfl
  · rw [hcount, hnonces, List.range_succ, List.map_append]
    rfl

section Seals

variable {a : AEAD} {iv : Str} {limit : Nat}

theorem sealedBy_zero (hlimit : 0 < limit) (room : Option Nat) : sealedBy limit room 0 = 0 := by
  cases room with
  | none => exact chunkCount_zero hlimit
  | some k => rw [sealedBy, chunkCount_zero hlimit, if_pos (Nat.zero_le k)]

theorem writeLoop_nil_hasSealed (hlimit : 0 < limit) {t : Nat} {w : AEADWriter} {sink : Sink}
    {n m : Nat} {r : Written AEADWriter}
    (h : writeLoop limit (aeadFrame a iv) t w sink [] n = some r) (hw : w.HasSealed a iv m) :
    r.writer.HasSealed a iv (m + sealedBy limit sink.room 0) ∧
      r.sink.room = sink.room.map (· - chunkCount limit 0) := by
  rw [writeLoop_nil] at h
  cases h
  rw [sealedBy_zero hlimit, chunkCount_zero hlimit]
  exact ⟨hw, Option.map_id'.symm⟩

theorem writeLoop_hasSealed (hslice : a.Sliceable iv) (hlimit : 0 < limit) {t : Nat}
    {w : AEADWriter} {sink : Sink} {b : Str} {n m : Nat} {r : Written AEADWriter}
    (h : writeLoop limit (aeadFrame a iv) t w sink b n = some r) (hw : w.HasSealed a iv m) :
    r.writer.HasSealed a iv (m + sealedBy limit sink.room b.length) ∧
      r.sink.room = sink.room.map (· - chunkCount limit b.length) := by
  induction t generalizing w sink b n m with
  | zero =>
      cases b with
      | nil => exact writeLoop_nil_hasSealed hlimit h hw
      | cons c cs => cases h
  | succ t ih =>
      by_cases hb : b = []
      · subst hb
        exact writeLoop_nil_hasSealed hlimit h hw
      · have hcount := chunkCount_drop hlimit hb
        rw [writeLoop_cons t w sink hb, aeadFrame_of_sliceable hslice] at h
        obtain ⟨stream, room⟩ := sink
        match room with
        | none =>
            obtain ⟨hsealed, hroom⟩ := ih h hw.succ
            have hm : m + 1 + sealedBy limit none (b.drop (readLen limit b)).length =
                m + sealedBy limit none b.length := by
              simp only [sealedBy, hcount]
              omega
            exact ⟨hm ▸ hsealed, hroom⟩
        | some 0 =>
            cases h
            have hm : m + sealedBy limit (some 0) b.length = m + 1 := by
              rw [sealedBy, if_neg (by omega)]
            exact ⟨hm ▸ hw.succ, by simp⟩
        | some (k + 1) =>
            obtain ⟨hsealed, hroom⟩ := ih h hw.succ
            have hm : m + 1 + sealedBy limit (some k) (b.drop (readLen limit b)).length =
                m + sealedBy limit (some (k + 1)) b.length := by
              simp only [sealedBy, hcount, Nat.add_le_add_iff_right]
              split <;> omega
            have hk : k + 1 - chunkCount limit b.length =
                k - chunkCount limit (b.drop (readLen limit b)).length := by omega
            refine ⟨hm ▸ hsealed, ?_⟩
            rw [hroom, Option.map_some, Option.map_some, hk]

theorem writes_hasSealed (hslice : a.Sliceable iv) (hlt : a.overhead < chunkSize) {bs : List Str}
    {w w' : AEADWriter} {sink sink' : Sink} {m : Nat}
    (h : writes (aeadWrite a iv) w sink bs = some (w', sink')) (hw : w.HasSealed a iv m) :
    w'.HasSealed a iv (m + sealCount (chunkSize - a.overhead) sink.room bs) := by
  induction bs generalizing w sink m with
  | nil =>
      cases h
      exact hw
  | cons b bs ih =>
      rw [writes] at h
      cases hr : aeadWrite a iv w sink b with
      | none =>
          rw [hr] at h
          cases h
      | some r =>
          simp only [hr] at h
          obtain ⟨hsealed, hroom⟩ := writeLoop_hasSealed hslice (Nat.sub_pos_of_lt hlt) hr hw
          have htail := ih h hsealed
          rwa [hroom, Nat.add_assoc] at htail

end Seals

/-- The cipher and the IV `newConn` gives its writer, for AES-128-GCM and for
ChaCha20-Poly1305: nonces of 12 bytes, tags of 16. -/
structure BodyCipher extends AEAD where
  nonceSize_eq : nonceSize = 12
  overhead_eq : overhead = 16
  reqBodyIV : Str
  reqBodyIV_length : reqBodyIV.length = 16

/-- The nonces of all the calls of `Seal` during these calls of `Write`. -/
def BodyCipher.sealNonces (c : BodyCipher) (room : Option Nat) (bs : List Str) :
    Option (List Str) :=
  (writes (aeadWrite c.toAEAD c.reqBodyIV) newAEADWriter ⟨[], room⟩ bs).map (·.1.nonces)

theorem BodyCipher.sliceable (c : BodyCipher) : c.Sliceable c.reqBodyIV := by
  refine ⟨?_, ?_, ?_⟩
  · rw [c.overhead_eq]
    decide
  · rw [c.reqBodyIV_length]
    decide
  · rw [c.nonceSize_eq]
    decide

theorem BodyCipher.sealNonces_eq (c : BodyCipher) (room : Option Nat) (bs : List Str) :
    c.sealNonces room bs = some ((List.range (sealCount (chunkSize - 16) room bs)).map
      fun i => c.nonce c.reqBodyIV (UInt16.ofNat i)) := by
  have hlt : c.overhead < chunkSize := by
    rw [c.overhead_eq]
    decide
  obtain ⟨⟨w, sink⟩, h⟩ := Option.isSome_iff_exists.mp
    (writes_isSome (aeadWrite_isSome c.sliceable hlt) bs newAEADWriter ⟨[], room⟩)
  have hnew : newAEADWriter.HasSealed c.toAEAD c.reqBodyIV 0 := ⟨rfl, rfl⟩
  have hsealed := (writes_hasSealed c.sliceable hlt h hnew).2
  rw [sealNonces, h, Option.map_some, hsealed, Nat.zero_add, c.overhead_eq]

theorem BodyCipher.nonce_injective (c : BodyCipher) : Function.Injective (c.nonce c.reqBodyIV) := by
  intro i j h
  have huint : ∀ count, uint16 (c.nonce c.reqBodyIV count) = count.toNat := by
    intro count
    rw [AEAD.nonce, c.nonceSize_eq]
    exact uint16_putUint16 count.toNat_lt
  have hij := congrArg uint16 h
  rw [huint, huint] at hij
  exact UInt16.toNat_inj.mp hij

theorem nodup_map_ofNat_iff {β : Type} {f : UInt16 → β} (hf : Function.Injective f) (m : Nat) :
    ((List.range m).map fun i => f (UInt16.ofNat i)).Nodup ↔ m ≤ 2 ^ 16 := by
  rw [List.nodup_map_iff_inj_on List.nodup_range]
  constructor
  · intro hinj
    by_contra hlt
    have h0 : (0 : Nat) ∈ List.range m := List.mem_range.mpr (by omega)
    have hwrap : 2 ^ 16 ∈ List.range m := List.mem_range.mpr (by omega)
    exact absurd (hinj 0 h0 (2 ^ 16) hwrap rfl) (by decide)
  · intro hm i hi j hj hij
    have heq := congrArg UInt16.toNat (hf hij)
    rw [UInt16.toNat_ofNat', UInt16.toNat_ofNat'] at heq
    rw [List.mem_range] at hi hj
    omega

/-- The nonces of one connection differ exactly as long as at most 2¹⁶ chunks have
been sealed. -/
theorem sealNonces_nodup_iff (c : BodyCipher) (room : Option Nat) (bs : List Str) :
    ∃ nonces, c.sealNonces room bs = some nonces ∧
      (nonces.Nodup ↔ sealCount (chunkSize - 16) room bs ≤ 2 ^ 16) :=
  ⟨_, c.sealNonces_eq room bs, nodup_map_ofNat_iff c.nonce_injective _⟩

/-- A stand-in for a cipher: the tag is 16 zero bytes. -/
def plainCipher : BodyCipher where
  nonceSize := 12
  overhead := 16
  sealText _ plain := plain ++ List.replicate 16 0
  openText _ text := some (text.take (text.length - 16))
  length_sealText _ plain := by rw [List.length_append, List.length_replicate]
  openText_sealText _ plain := by simp
  nonceSize_eq := rfl
  overhead_eq := rfl
  reqBodyIV := List.replicate 16 0
  reqBodyIV_length := List.length_replicate

/-- After 65536 writes of one byte the next one seals with the first nonce again. -/
theorem nonce_reused_after_wrap :
    ∃ nonces, plainCipher.sealNonces none (List.replicate 65537 [0]) = some nonces ∧
      ¬ nonces.Nodup := by
  refine ⟨_, plainCipher.sealNonces_eq none _, ?_⟩
  rw [nodup_map_ofNat_iff plainCipher.nonce_injective, sealCount_none, List.map_replicate,
    List.sum_replicate_nat]
  decide

end RuleBaseProxy.Vmess
