import Umka.Inflate.Block
import Umka.Lib.Deflate

/-!
# Matches

Whether a match is copied byte by byte or sixteen bytes at a time, what is in the buffer behind it
is what the format says. The last sixteen bytes may be more than the match has; they end before the
end of the buffer, and what comes next goes over them.
-/

set_option autoImplicit false

namespace Umka.Inflate

open Lib Lib.Deflate

variable {out : List UInt8} {outDataEnd cur matchLen matchOffset : Nat}

/-- The buffer after a match: the bytes up to its end, and those from the end of the room on. -/
structure Copied (outDataEnd cur matchLen matchOffset : Nat) (out out' : List UInt8) : Prop where
  length : out'.length = out.length
  bytes : out'.take (cur + matchLen) = copyBack matchOffset matchLen (out.take cur)
  beyond : out'.drop outDataEnd = out.drop outDataEnd

theorem length_take_cur (h : cur ≤ out.length) : (out.take cur).length = cur := by
  rw [List.length_take, Nat.min_eq_left h]

/-! ## Byte by byte -/

theorem copyByte_ok {o : List UInt8} {j : Nat} (hone : 1 ≤ matchOffset) (hback : matchOffset ≤ cur)
    (hroom : cur + j < outDataEnd) (hend : outDataEnd ≤ out.length)
    (h : Copied outDataEnd cur j matchOffset out o) :
    ∃ o', copyByte cur (cur - matchOffset) j o = .ok o' ∧
      Copied outDataEnd cur (j + 1) matchOffset out o' := by
  have hcur : (out.take cur).length = cur := length_take_cur (by omega)
  have hdst : cur + j < o.length := by
    rw [h.length]
    omega
  have hsrc : cur - matchOffset + j < o.length := by omega
  -- the byte is one of those that are right already
  have hbyte : o[cur - matchOffset + j] =
      (copyBack matchOffset j (out.take cur)).getD ((out.take cur).length + j - matchOffset) 0 := by
    have hplace : (out.take cur).length + j - matchOffset = cur - matchOffset + j := by omega
    rw [hplace, ← h.bytes, List.getD_eq_getElem?_getD, List.getElem?_take_of_lt (by omega),
      List.getElem?_eq_getElem hsrc, Option.getD_some]
  refine ⟨o.set (cur + j) o[cur - matchOffset + j], ?_, ?_, ?_, ?_⟩
  · rw [copyByte, fetch_of_lt _ hsrc, ok_bind, store_of_lt _ _ hdst]
  · rw [List.length_set, h.length]
  · rw [← Nat.add_assoc, List.take_succ_eq_append_getElem (by rw [List.length_set]; exact hdst),
      List.take_set_of_le (Nat.le_refl _), List.getElem_set_self, h.bytes, hbyte, copyBack_succ]
  · rw [List.drop_set_of_lt hroom, h.beyond]

theorem copyBytes_ok (hone : 1 ≤ matchOffset) (hback : matchOffset ≤ cur)
    (hroom : cur + matchLen ≤ outDataEnd) (hend : outDataEnd ≤ out.length) :
    ∃ out', loop (copyByte cur (cur - matchOffset)) 0 matchLen out = .ok out' ∧
      Copied outDataEnd cur matchLen matchOffset out out' := by
  have hloop := loop_ok (copyByte cur (cur - matchOffset)) (i := 0) (n := matchLen) (s := out)
    (I := fun j o => Copied outDataEnd cur j matchOffset out o)
    (fun j o _ hj ho => copyByte_ok hone hback (by omega) hend ho) ⟨rfl, rfl, rfl⟩
  rwa [Nat.zero_add] at hloop

/-! ## Sixteen bytes at a time -/

/-- Sixteen bytes from far enough away. -/
theorem memcpy16_ok {o : List UInt8} {n : Nat} (hback : matchOffset ≤ cur) (hfar : 16 ≤ matchOffset)
    (hroom : cur + n + 16 ≤ outDataEnd) (hend : outDataEnd ≤ out.length)
    (h : Copied outDataEnd cur n matchOffset out o) :
    ∃ o', memcpy16 o (cur + n) (cur - matchOffset + n) = .ok o' ∧
      Copied outDataEnd cur (n + 16) matchOffset out o' := by
  have hcur : (out.take cur).length = cur := length_take_cur (by omega)
  have hlength := h.length
  have hchunk : ((o.drop (cur - matchOffset + n)).take 16).length = 16 := by
    rw [List.length_take, List.length_drop]
    omega
  have htake : (o.take (cur + n)).length = cur + n := by
    rw [List.length_take]
    omega
  -- the bytes that are copied lie before the place they go to
  have hcopy : o.take (cur + n) ++ (o.drop (cur - matchOffset + n)).take 16 =
      copyBack matchOffset (n + 16) (out.take cur) := by
    have hsame : (o.drop (cur - matchOffset + n)).take 16 =
        ((o.take (cur + n)).drop ((o.take (cur + n)).length - matchOffset)).take 16 := by
      rw [htake, List.drop_take, List.take_take]
      congr 1
      · omega
      · congr 1
        omega
    rw [hsame, ← copyBack_eq_append (n := 16) hfar (by rw [htake]; omega), h.bytes, ← copyBack_add]
  refine ⟨o.take (cur + n) ++ (o.drop (cur - matchOffset + n)).take 16 ++ o.drop (cur + n + 16), ?_,
    ?_, ?_, ?_⟩
  · rw [memcpy16, if_pos (by omega), memcpyTo, if_pos (by rw [hchunk]; omega), hchunk]
  · rw [List.length_append, List.length_append, htake, hchunk, List.length_drop]
    omega
  · rw [← Nat.add_assoc, List.take_append_of_le_length (by rw [List.length_append, htake, hchunk]),
      List.take_of_length_le (by rw [List.length_append, htake, hchunk]), hcopy]
  · rw [List.drop_append, List.drop_eq_nil_of_le
      (by rw [List.length_append, htake, hchunk]; exact hroom), List.nil_append, List.length_append,
      htake, hchunk, List.drop_drop, show cur + n + 16 + (outDataEnd - (cur + n + 16))
        = outDataEnd by omega, h.beyond]

/-- The chunks from `n` bytes on. -/
theorem copyChunks_ok (hback : matchOffset ≤ cur) (hfar : 16 ≤ matchOffset)
    (hroom : cur + matchLen + 15 ≤ outDataEnd) (hend : outDataEnd ≤ out.length) :
    ∀ {fuel n : Nat} {o : List UInt8}, n < matchLen → matchLen < n + 16 * fuel →
      Copied outDataEnd cur n matchOffset out o →
      ∃ out', copyChunks (cur + matchLen) fuel (cur + n) (cur - matchOffset + n) o = .ok out' ∧
        Copied outDataEnd cur matchLen matchOffset out out'
  | 0, n, _, hn, hfuel, _ => absurd hfuel (by omega)
  | fuel + 1, n, o, hn, hfuel, h => by
    obtain ⟨o', hcopy, ho'⟩ := memcpy16_ok hback hfar (by omega) hend h
    have hcur : (out.take cur).length = cur := length_take_cur (by omega)
    rw [copyChunks, hcopy, ok_bind]
    by_cases hmore : cur + n + 16 < cur + matchLen
    · rw [if_pos hmore, Nat.add_assoc cur, Nat.add_assoc (cur - matchOffset)]
      exact copyChunks_ok hback hfar hroom hend (by omega) (by omega) ho'
    · rw [if_neg hmore]
      refine ⟨o', rfl, ho'.length, ?_, ho'.beyond⟩
      -- the last chunk may have gone further than the match
      have hle : matchLen ≤ n + 16 := by omega
      have htake : (copyBack matchOffset (n + 16) (out.take cur)).take
            ((out.take cur).length + matchLen)
          = copyBack matchOffset matchLen (out.take cur) := take_copyBack hle _
      rw [hcur, ← ho'.bytes, List.take_take, Nat.min_eq_left (by omega)] at htake
      exact htake

/-! ## Both -/

/-- **A match is copied right**, whichever way. -/
theorem copyMatch_ok (hlen : 1 ≤ matchLen) (hone : 1 ≤ matchOffset) (hback : matchOffset ≤ cur)
    (hroom : cur + matchLen ≤ outDataEnd) (hend : outDataEnd ≤ out.length) :
    ∃ out', copyMatch outDataEnd cur matchLen matchOffset out = .ok out' ∧
      Copied outDataEnd cur matchLen matchOffset out out' := by
  rw [copyMatch, if_neg (Nat.not_lt_of_le hback)]
  by_cases hfast : 16 ≤ matchOffset ∧ cur + matchLen + 15 ≤ outDataEnd
  · rw [if_pos hfast]
    exact copyChunks_ok (n := 0) hback hfast.1 hfast.2 hend hlen (by omega) ⟨rfl, rfl, rfl⟩
  · rw [if_neg hfast, if_neg (Nat.not_lt_of_le hroom)]
    exact copyBytes_ok hone hback hroom hend

end Umka.Inflate
