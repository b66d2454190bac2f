import Umka.Tools.Mkfilepattern

/-!
# What `mkfilepattern` writes depends on the position only

Words never straddle the places where the width changes, and a place that is a multiple of eight is
one where a word of any width may start. So each word lies where its width says, whichever round
it was written in.
-/

set_option autoImplicit false

namespace Umka.Proof.Tools

open Umka.Tools Lib

/-- How many bytes the words at `p` have. -/
def width (p : Nat) : Nat :=
  if p < 0x100 then 1 else if p < 0x10000 then 2 else if p < 0x100000000 then 4 else 8

/-- The byte at `p`: one of the little-endian word that starts at the last place before. -/
def patternByte (p : Nat) : UInt8 := (toLE (width p) (p - p % width p)).getD (p % width p) 0

/-! ## Words -/

/-- A word may start here. -/
def Aligned (p : Nat) : Prop := p % width p = 0

theorem width_pos (p : Nat) : 0 < width p := by
  unfold width
  split_ifs <;> decide

theorem width_le (p : Nat) : width p ≤ 8 := by
  unfold width
  split_ifs <;> decide

theorem aligned_of_eight {p : Nat} (h : p % 8 = 0) : Aligned p := by
  unfold Aligned width
  split_ifs <;> omega

/-- One word ends where the next one starts. -/
theorem aligned_next {p : Nat} (h : Aligned p) : Aligned (p + width p) := by
  unfold Aligned width at *
  split_ifs at h ⊢ <;> omega

/-- The places in a word have its width. -/
theorem width_in_word {p j : Nat} (h : Aligned p) (hj : j < width p) : width (p + j) = width p := by
  unfold Aligned width at *
  split_ifs at h hj ⊢ <;> omega

theorem patternByte_word {p j : Nat} (h : Aligned p) (hj : j < width p) :
    patternByte (p + j) = (toLE (width p) p).getD j 0 := by
  have hmod : (p + j) % width p = j := by
    rw [Nat.add_mod, show p % width p = 0 from h, Nat.zero_add, Nat.mod_mod, Nat.mod_eq_of_lt hj]
  rw [patternByte, width_in_word h hj, hmod, Nat.add_sub_cancel]

/-! ## A round -/

/-- The four branches are one: a word of the width at its place. -/
theorem fillLoop_word {pos count rounds off : Nat} {buf : ByteMem} (h : off < count)
    (hmax : pos + off < 2 ^ 63) :
    fillLoop pos count (rounds + 1) off buf
      = (storeWord buf off (width (pos + off)) (pos + off)).bind
          (fillLoop pos count rounds (off + width (pos + off))) := by
  rw [fillLoop, if_pos h]
  unfold width
  split_ifs with h1 h2 h4
  · rw [Nat.mod_eq_of_lt (show pos + off < 2 ^ 8 from h1)]
  · rw [Nat.mod_eq_of_lt (show pos + off < 2 ^ 16 from h2)]
  · rw [Nat.mod_eq_of_lt (show pos + off < 2 ^ 32 from h4)]
  · rw [Nat.mod_eq_of_lt (show pos + off < 2 ^ 64 from Nat.lt_trans hmax (by decide))]

/-- The first `n` bytes of the buffer are those of the file from `pos` on. -/
def Filled (pos n : Nat) (buf : ByteMem) : Prop := ∀ i, i < n → buf i = patternByte (pos + i)

/-- One word more. -/
theorem filled_store {pos off : Nat} {buf : ByteMem} (halign : Aligned (pos + off))
    (hoff : off < patternBufLen) (h : Filled pos off buf) :
    ∃ buf', storeWord buf off (width (pos + off)) (pos + off) = some buf'
      ∧ Filled pos (off + width (pos + off)) buf' := by
  have hroom : off + width (pos + off) ≤ patternBufLen + 7 := by
    have hw := width_le (pos + off)
    omega
  refine ⟨_, if_pos hroom, fun i hi => ?_⟩
  by_cases hlow : off ≤ i
  · have hword := patternByte_word halign (by omega : i - off < width (pos + off))
    rw [Nat.add_assoc, Nat.add_sub_cancel' hlow] at hword
    rw [if_pos ⟨hlow, hi⟩, hword]
  · rw [if_neg fun hin => hlow hin.1]
    exact h i (by omega)

/-- The loop fills the buffer as far as it is needed, and stays in it. -/
theorem fillLoop_eq {pos count : Nat} (hcount : count ≤ patternBufLen)
    (hmax : pos + count < 2 ^ 63) :
    ∀ (rounds off : Nat) (buf : ByteMem), count ≤ off + rounds → Aligned (pos + off) →
      Filled pos off buf → ∃ buf', fillLoop pos count rounds off buf = some buf' ∧
      Filled pos count buf' := by
  intro rounds
  induction rounds with
  | zero =>
    intro off buf hrounds _ hfilled
    refine ⟨buf, ?_, fun i hi => hfilled i (by omega)⟩
    rw [fillLoop, if_neg (by omega)]
  | succ rounds ih =>
    intro off buf hrounds halign hfilled
    by_cases hoff : off < count
    · obtain ⟨buf', hstore, hfilled'⟩ := filled_store halign
        (Nat.lt_of_lt_of_le hoff hcount) hfilled
      have hnext : Aligned (pos + (off + width (pos + off))) := by
        rw [← Nat.add_assoc]
        exact aligned_next halign
      have hw := width_pos (pos + off)
      rw [fillLoop_word hoff (by omega), hstore, Option.bind_some]
      exact ih _ buf' (by omega) hnext hfilled'
    · refine ⟨buf, ?_, fun i hi => hfilled i (by omega)⟩
      rw [fillLoop, if_neg hoff]

/-! ## The file -/

/-- The part from `offset` to `stop` has been written, and nothing else. -/
structure Wrote (f : HostFile) (offset stop : Nat) (out : Out) : Prop where
  pos : out.pos = stop
  size : out.file.size = if offset < stop then max f.size stop else f.size
  byteAt : ∀ p, out.file.byteAt p = if offset ≤ p ∧ p < stop then patternByte p else f.byteAt p

theorem wrote_start (f : HostFile) (offset : Nat) : Wrote f offset offset ⟨f, offset⟩ where
  pos := rfl
  size := (if_neg (Nat.lt_irrefl offset)).symm
  byteAt _ := (if_neg fun hin => absurd hin.2 (Nat.not_lt.mpr hin.1)).symm

/-- A buffer more. -/
theorem wrote_write {f : HostFile} {offset pos count : Nat} {out : Out} {buf : ByteMem}
    (h : Wrote f offset pos out) (hle : offset ≤ pos) (hcount : 0 < count)
    (hmax : pos + count < 2 ^ 63) (hbuf : Filled pos count buf) :
    ∃ out', out.write ((List.range count).map buf) = some out' ∧
      Wrote f offset (pos + count) out' := by
  have hlen : ((List.range count).map buf).length = count := by
    rw [List.length_map, List.length_range]
  have hfits : out.pos + ((List.range count).map buf).length < 2 ^ 63 := by rwa [h.pos, hlen]
  obtain ⟨g, hsplice, hsize, hbyte⟩ := out.file.splice_fits hfits
  rw [h.pos, hlen] at hsize hbyte
  refine ⟨⟨g, pos + count⟩, ?_, rfl, ?_, fun p => ?_⟩
  · rw [Out.write, hsplice, Option.map_some, h.pos, hlen]
  · show g.size = _
    rw [hsize, h.size, if_pos (by omega : offset < pos + count)]
    split_ifs <;> omega
  · show g.byteAt p = _
    rw [hbyte, h.byteAt]
    by_cases hin : pos ≤ p ∧ p < pos + count
    · have hget : ((List.range count).map buf).getD (p - pos) 0 = patternByte p := by
        rw [List.getD_eq_getElem?_getD, List.getElem?_map, List.getElem?_range (by omega),
          Option.map_some, Option.getD_some, hbuf _ (by omega), Nat.add_sub_cancel' hin.1]
      rw [if_pos hin, if_pos (by omega), hget]
    · rw [if_neg hin]
      exact if_congr (by omega) rfl rfl

/-- The loop goes on from where it is to the end of the part. -/
theorem patternLoop_eq {f : HostFile} {offset stop : Nat} (hmax : stop < 2 ^ 63) :
    ∀ (rounds pos count : Nat) (buf : ByteMem) (out : Out), stop ≤ pos + rounds → offset ≤ pos →
      pos ≤ stop → (pos < stop → pos % 8 = 0 ∧ count = patternBufLen) → Wrote f offset pos out →
      ∃ out', patternLoop stop rounds pos count buf out = some out' ∧ Wrote f offset stop out' := by
  intro rounds
  induction rounds with
  | zero =>
    intro pos count buf out hrounds _ hstop _ h
    have hend : pos = stop := by omega
    subst hend
    exact ⟨out, if_neg (Nat.lt_irrefl pos), h⟩
  | succ rounds ih =>
    intro pos count buf out hrounds hoffset hstop hround h
    by_cases hpos : pos < stop
    · obtain ⟨height, rfl⟩ := hround hpos
      rw [patternLoop, if_pos hpos]
      -- the last buffer may be a part of one
      have hcount : ∃ n, (if patternBufLen > stop - pos then stop - pos else patternBufLen) = n
          ∧ 0 < n ∧ n ≤ patternBufLen ∧ pos + n ≤ stop ∧ (n = patternBufLen ∨ pos + n = stop) := by
        have hlen : patternBufLen = 16 := rfl
        split_ifs
        · exact ⟨_, rfl, by omega, by omega, by omega, by omega⟩
        · exact ⟨_, rfl, by omega, by omega, by omega, by omega⟩
      obtain ⟨n, hn, hnpos, hnlen, hnstop, hnlast⟩ := hcount
      obtain ⟨buf', hfill, hfilled⟩ := fillLoop_eq hnlen (Nat.lt_of_le_of_lt hnstop hmax) n 0 buf
        (Nat.le_add_left n 0) (aligned_of_eight height) (fun i hi => absurd hi (Nat.not_lt_zero i))
      obtain ⟨out', hwrite, hwrote⟩ := wrote_write h hoffset hnpos
        (Nat.lt_of_le_of_lt hnstop hmax) hfilled
      simp only [hn, hfill, Option.bind_some, hwrite]
      refine ih (pos + n) n buf' out' (by omega) (by omega) hnstop (fun hlt => ?_) hwrote
      have hfull := hnlast.resolve_right (Nat.ne_of_lt hlt)
      have hlen : patternBufLen = 16 := rfl
      exact ⟨by omega, hfull⟩
    · have hend : pos = stop := by omega
      subst hend
      exact ⟨out, if_neg hpos, h⟩

/-- One run of the tool. -/
theorem mkfilepattern_wrote (buf : ByteMem) (f : HostFile) {offset len : Nat}
    (height : offset % 8 = 0) (hmax : offset + len < 2 ^ 63) :
    ∃ out, mkfilepattern buf f offset len = some out ∧ Wrote f offset (offset + len) out :=
  patternLoop_eq hmax len offset patternBufLen buf ⟨f, offset⟩ (Nat.le_refl _) (Nat.le_refl _)
    (Nat.le_add_right _ _) (fun _ => ⟨height, rfl⟩) (wrote_start f offset)

/-! ## Two runs -/

def SameFile (f g : HostFile) : Prop := f.size = g.size ∧ ∀ p, f.byteAt p = g.byteAt p

/-- Two parts that make up a whole, whichever was written first. -/
theorem same_of_parts {f : HostFile} {a b c d lo hi : Nat} {x y whole : Out} (hx : Wrote f a b x)
    (hy : Wrote x.file c d y) (h : Wrote f lo hi whole) (hab : a ≤ b) (hcd : c ≤ d)
    (hparts : (a = lo ∧ b = c ∧ d = hi) ∨ (c = lo ∧ d = a ∧ b = hi)) :
    SameFile y.file whole.file := by
  refine ⟨?_, fun p => ?_⟩
  · rw [hy.size, hx.size, h.size]
    split_ifs <;> omega
  · rw [hy.byteAt, hx.byteAt, h.byteAt]
    split_ifs <;> first | rfl | omega

/-- **What is at a place depends on the place only**: a run ends, having stored nothing outside of
    its buffer, written `len` bytes from `offset` on, each the one of its position, and left the
    rest of the file as it was. So two neighbouring parts, in either order, are the same as one. -/
theorem mkfilepattern_position (buf : ByteMem) :
    (∀ (f : HostFile) (offset len : Nat), offset % 8 = 0 → offset + len < 2 ^ 63 →
      ∃ out, mkfilepattern buf f offset len = some out ∧ out.pos = offset + len
        ∧ out.file.size = (if 0 < len then max f.size (offset + len) else f.size)
        ∧ ∀ p, out.file.byteAt p
            = if offset ≤ p ∧ p < offset + len then patternByte p else f.byteAt p)
    ∧ ∀ (f : HostFile) (a b c : Nat), a % 8 = 0 → b % 8 = 0 → a ≤ b → b ≤ c → c < 2 ^ 63 →
      ∃ whole low low' high high', mkfilepattern buf f a (c - a) = some whole
        ∧ mkfilepattern buf f a (b - a) = some low
        ∧ mkfilepattern buf low.file b (c - b) = some low'
        ∧ mkfilepattern buf f b (c - b) = some high
        ∧ mkfilepattern buf high.file a (b - a) = some high'
        ∧ SameFile low'.file whole.file ∧ SameFile high'.file whole.file := by
  constructor
  · intro f offset len height hmax
    obtain ⟨out, hrun, h⟩ := mkfilepattern_wrote buf f height hmax
    refine ⟨out, hrun, h.pos, ?_, h.byteAt⟩
    rw [h.size]
    exact if_congr (by omega) rfl rfl
  · intro f a b c ha hb hab hbc hmax
    have hlow : a + (b - a) = b := by omega
    have hhigh : b + (c - b) = c := by omega
    have hall : a + (c - a) = c := by omega
    obtain ⟨whole, hwhole, h⟩ := mkfilepattern_wrote buf f ha (hall.trans_lt hmax)
    obtain ⟨low, hrunLow, hl⟩ := mkfilepattern_wrote buf f ha (by omega : a + (b - a) < 2 ^ 63)
    obtain ⟨low', hrunLow', hl'⟩ := mkfilepattern_wrote buf low.file hb (hhigh.trans_lt hmax)
    obtain ⟨high, hrunHigh, hh⟩ := mkfilepattern_wrote buf f hb (hhigh.trans_lt hmax)
    obtain ⟨high', hrunHigh', hh'⟩ :=
      mkfilepattern_wrote buf high.file ha (by omega : a + (b - a) < 2 ^ 63)
    rw [hall] at h
    rw [hlow] at hl hh'
    rw [hhigh] at hl' hh
    exact ⟨whole, low, low', high, high', hwhole, hrunLow, hrunLow', hrunHigh, hrunHigh',
      same_of_parts hl hl' h hab hbc (.inl ⟨rfl, rfl, rfl⟩),
      same_of_parts hh hh' h hbc hab (.inr ⟨rfl, rfl, rfl⟩)⟩

/-- Across the place where the pattern's words get wider, in one run and in two. -/
theorem mkfilepattern_position_wider :
    (∃ out, mkfilepattern (fun _ => 0) ⟨0, fun _ => 0, by decide⟩ 248 20 = some out
      ∧ out.file.size = 268 ∧ out.file.byteAt 255 = patternByte 255
      ∧ out.file.byteAt 257 = patternByte 257 ∧ out.file.byteAt 7 = 0)
    ∧ ∃ whole low low' high high',
      mkfilepattern (fun _ => 0) ⟨0, fun _ => 0, by decide⟩ 248 20 = some whole
      ∧ mkfilepattern (fun _ => 0) ⟨0, fun _ => 0, by decide⟩ 248 8 = some low
      ∧ mkfilepattern (fun _ => 0) low.file 256 12 = some low'
      ∧ mkfilepattern (fun _ => 0) ⟨0, fun _ => 0, by decide⟩ 256 12 = some high
      ∧ mkfilepattern (fun _ => 0) high.file 248 8 = some high'
      ∧ SameFile low'.file whole.file ∧ SameFile high'.file whole.file := by
  obtain ⟨hone, htwo⟩ := mkfilepattern_position fun _ => 0
  obtain ⟨out, hrun, -, hsize, hbytes⟩ := hone ⟨0, fun _ => 0, by decide⟩ 248 20 rfl (by decide)
  exact ⟨⟨out, hrun, hsize, hbytes 255, hbytes 257, hbytes 7⟩,
    htwo ⟨0, fun _ => 0, by decide⟩ 248 256 268 rfl rfl (by decide) (by decide) (by decide)⟩

end Umka.Proof.Tools
