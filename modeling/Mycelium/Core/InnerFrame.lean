import Mycelium.Lib.Codec
import Mycelium.Core.Crypto

/-!
# Mycelium core — the inner frame of an end-to-end payload

A frame is the magic, the length of the author's name in four bytes, big-endian, the name and the
payload. Anything else is a payload of an older sender and is passed through whole.

* `Frame` — the form `unwrap_inner` looks for, of which it reads off the two parts;
* `inner_frame_laws` — the round trip, and what is passed through.
-/

namespace Mycelium

/-- A big-endian number is the little-endian one of the bytes in reverse. Induction on the bytes,
from the last one. -/
theorem beNat_eq (bytes : Bytes) : beNat bytes = Codec.ofLeBytes bytes.reverse := by
  unfold beNat
  induction bytes using List.reverseRecOn with
  | nil => rfl
  | append_singleton bytes b ih =>
    rw [List.foldl_append, List.reverse_append]
    show bytes.foldl (fun n b => n * 256 + b.toNat) 0 * 256 + b.toNat
      = b.toNat + 256 * Codec.ofLeBytes bytes.reverse
    rw [ih]
    omega

theorem beNat_leBytes {w n : Nat} (hn : n < 256 ^ w) : beNat (leBytes w n).reverse = n := by
  rw [beNat_eq, List.reverse_reverse, Codec.ofLeBytes_leBytes hn]

theorem leBytes_beNat (bytes : Bytes) : (leBytes bytes.length (beNat bytes)).reverse = bytes := by
  have h := Codec.leBytes_ofLeBytes bytes.reverse
  rw [List.length_reverse, ← beNat_eq] at h
  rw [h, List.reverse_reverse]

/-- The bytes are a frame around the bytes of a name and a payload. -/
structure Frame (data author app : Bytes) : Prop where
  bound : author.length ≤ maxAuthorBytes
  layout : data = innerMagic ++ (leBytes 4 author.length).reverse ++ author ++ app

section

variable {data author app : Bytes}

theorem Frame.split (h : Frame data author app) :
    data.drop innerMagic.length = (leBytes 4 author.length).reverse ++ (author ++ app) := by
  rw [h.layout, List.append_assoc, List.append_assoc, List.drop_left]

/-- What a frame is unwrapped to. A name that is empty or not UTF-8 is replaced by the relay's. -/
theorem Frame.unwrap (h : Frame data author app) (relay : String) :
    unwrapInner data relay
      = (if (fromUtf8 author).getD "" = "" then relay else (fromUtf8 author).getD "", app) := by
  have hfits : author.length < 256 ^ 4 := h.bound.trans_lt (by decide)
  have hlength : (leBytes 4 author.length).reverse.length = 4 := by
    rw [List.length_reverse, length_leBytes]
  have hmagic : innerMagic.isPrefixOf data = true := by
    rw [List.isPrefixOf_iff_prefix, h.layout, List.append_assoc, List.append_assoc]
    exact List.prefix_append _ _
  have hheader : ¬ data.length < innerMagic.length + 4 := by
    rw [h.layout]
    simp only [List.length_append, hlength]
    omega
  have hsize : ¬ ((leBytes 4 author.length).reverse ++ (author ++ app)).length < 4 + author.length := by
    simp only [List.length_append, hlength]
    omega
  have hbody : ((leBytes 4 author.length).reverse ++ (author ++ app)).drop (4 + author.length)
      = app := by
    rw [← List.drop_drop, List.drop_left' hlength, List.drop_left]
  unfold unwrapInner
  simp only [h.split, List.take_left' hlength, List.drop_left' hlength, beNat_leBytes hfits, hmagic,
    hheader, h.bound.not_gt, hsize, hbody, decide_false, Bool.not_true, Bool.or_false,
    Bool.false_eq_true, if_false, List.take_left]

/-- A payload that is not passed through is a frame. -/
theorem frame_of_unwrap {relay : String} (h : unwrapInner data relay ≠ (relay, data)) :
    ∃ author app, Frame data author app := by
  unfold unwrapInner at h
  split at h
  · exact absurd rfl h
  · next hheader =>
    simp only [Bool.or_eq_true, decide_eq_true_eq, Bool.not_eq_true', not_or, Nat.not_lt,
      Bool.not_eq_false, List.isPrefixOf_iff_prefix] at hheader
    obtain ⟨hlong, rest, rfl⟩ := hheader
    rw [List.length_append, Nat.add_le_add_iff_left] at hlong
    simp only [List.drop_left] at h
    split at h
    · exact absurd rfl h
    · next hbody =>
      simp only [Bool.or_eq_true, decide_eq_true_eq, not_or, Nat.not_lt] at hbody
      obtain ⟨hbound, hbody⟩ := hbody
      -- the length field, the name behind it, and what is left
      have hfield : (rest.take 4).length = 4 := List.length_take_of_le hlong
      have hname : ((rest.drop 4).take (beNat (rest.take 4))).length = beNat (rest.take 4) := by
        rw [List.length_take, List.length_drop]
        omega
      refine ⟨(rest.drop 4).take (beNat (rest.take 4)), rest.drop (4 + beNat (rest.take 4)),
        hname.trans_le hbound, ?_⟩
      have hlen := leBytes_beNat (rest.take 4)
      rw [hfield] at hlen
      rw [hname, hlen, List.append_assoc, List.append_assoc, ← List.drop_drop,
        List.take_append_drop, List.take_append_drop]

end

/-- **The inner frame.** A payload wrapped for an author is unwrapped to the author and the payload,
whoever relayed it; and bytes that are not a frame are the relay's payload, all of them. -/
theorem inner_frame_laws :
    (∀ (author : String) (app : Bytes) (relay : String), author ≠ "" →
        (asBytes author).length ≤ 512 →
        ∃ data, wrapInner author app = some data ∧ unwrapInner data relay = (author, app))
    ∧ ∀ (data : Bytes) (relay : String), (¬ ∃ author app, Frame data author app) →
        unwrapInner data relay = (relay, data) := by
  refine ⟨?_, ?_⟩
  · intro author app relay hne hbound
    have hframe : Frame (innerMagic ++ (leBytes 4 (asBytes author).length).reverse ++ asBytes author ++ app)
        (asBytes author) app := ⟨hbound, rfl⟩
    refine ⟨_, if_pos hbound, ?_⟩
    rw [hframe.unwrap, fromUtf8_asBytes]
    simp [hne]
  · intro data relay hnot
    by_contra h
    exact hnot (frame_of_unwrap h)

end Mycelium
