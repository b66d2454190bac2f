import Umka.Lib.Counting
import Umka.Tools.GenSameHash

/-!
# `gensamehash` goes through all names

A name is a numeral with 62 digits, and `increment` adds one to it: a digit either becomes the next
one, over the gaps between the three ranges, or it is the last one and is carried. So the search
comes to every name once before it comes back to where it started.
-/

set_option autoImplicit false

namespace Umka.Proof.Tools

open Umka.Tools Lib

/-- `n` characters, from `first` on. -/
def charsFrom (first : Char) (n : Nat) : List Char :=
  (List.range n).map fun i => Char.ofNat (first.toNat + i)

/-- The digits, in their order: `0` to `9`, `A` to `Z` and `a` to `z`. -/
def alphabet : List Char := charsFrom '0' 10 ++ charsFrom 'A' 26 ++ charsFrom 'a' 26

@[ext]
structure Name where
  chars : List Char
  length : chars.length = numLen
  valid : chars ⊆ alphabet

/-- The number that the name stands for. -/
def Name.number (name : Name) : Nat := readOver alphabet name.chars

/-! ## One digit -/

theorem length_alphabet : alphabet.length = 62 := by decide

theorem one_lt_alphabet : 1 < alphabet.length := by rw [length_alphabet]; decide

theorem nodup_alphabet : alphabet.Nodup := by decide +kernel

/-- What stands in the place of a digit that is not carried. -/
def nextChar (c : Char) : Char :=
  if c = '9' then 'A' else if c = 'Z' then 'a' else Char.ofNat (c.toNat + 1)

theorem nextChar_alphabet {c : Char} (hc : c ∈ alphabet) (hz : c ≠ 'z') :
    nextChar c ∈ alphabet ∧ alphabet.idxOf (nextChar c) = alphabet.idxOf c + 1 := by
  have hall : alphabet.all (fun c => decide (c ≠ 'z' →
      nextChar c ∈ alphabet ∧ alphabet.idxOf (nextChar c) = alphabet.idxOf c + 1)) = true := by
    decide +kernel
  exact of_decide_eq_true (List.all_eq_true.mp hall c hc) hz

/-! ## The loop -/

/-- The loop at its first place. -/
theorem incrementLoop_concat (pre : List Char) (c : Char) (post : List Char) :
    incrementLoop (pre.length + 1) (pre ++ c :: post)
      = if c = 'z' then incrementLoop pre.length (pre ++ '0' :: post)
        else pre ++ nextChar c :: post := by
  have hget : (pre ++ c :: post).getD pre.length nul = c := by
    simp
  have hset : ∀ d, (pre ++ c :: post).set pre.length d = pre ++ d :: post := by
    simp
  rw [incrementLoop, hget]
  simp only [hset]
  split
  · rfl
  · rfl
  · rfl
  · rename_i h9 hZ hz
    rw [if_neg hz, nextChar, if_neg h9, if_neg hZ]

/-- The text before some place becomes the next one, whatever is behind it. -/
theorem incrementLoop_eq (pre : List Char) (hsub : pre ⊆ alphabet) : ∃ pre',
    (∀ post, incrementLoop pre.length (pre ++ post) = pre' ++ post) ∧ pre'.length = pre.length
      ∧ pre' ⊆ alphabet
      ∧ readOver alphabet pre' = (readOver alphabet pre + 1) % 62 ^ pre.length := by
  induction pre using List.reverseRecOn with
  | nil => exact ⟨[], fun _ => rfl, rfl, List.nil_subset _, (Nat.mod_one _).symm⟩
  | append_singleton pre c ih =>
    obtain ⟨hpre, hc⟩ := List.append_subset.mp hsub
    have hc : c ∈ alphabet := hc (List.mem_singleton_self c)
    have hsplit : ∀ (d : Char) (post : List Char), pre ++ [d] ++ post = pre ++ d :: post :=
      fun d post =>
      List.append_assoc pre [d] post
    rw [List.length_append, List.length_singleton, readOver_concat, length_alphabet]
    by_cases hz : c = 'z'
    · -- the last digit is the first again, and the text before it goes on
      subst hz
      obtain ⟨pre', hloop, hlen, hsub', hread⟩ := ih hpre
      refine ⟨pre' ++ ['0'], fun post => ?_, ?_, ?_, ?_⟩
      · rw [hsplit, incrementLoop_concat, if_pos rfl, hloop, List.append_assoc,
          List.singleton_append]
      · rw [List.length_append, hlen, List.length_singleton]
      · exact List.append_subset.mpr ⟨hsub', List.cons_subset.mpr ⟨by decide, List.nil_subset _⟩⟩
      · have hzero : alphabet.idxOf '0' = 0 := by decide
        have hlast : alphabet.idxOf 'z' + 1 = 62 := by decide
        rw [readOver_concat, length_alphabet, hread, hzero, Nat.add_zero, Nat.add_assoc, hlast,
          ← Nat.succ_mul, Nat.pow_succ, Nat.mul_mod_mul_right]
    · obtain ⟨hnext, hdigit⟩ := nextChar_alphabet hc hz
      have hsub' : pre ++ [nextChar c] ⊆ alphabet :=
        List.append_subset.mpr ⟨hpre, List.cons_subset.mpr ⟨hnext, List.nil_subset _⟩⟩
      have hlt := readOver_lt one_lt_alphabet hsub'
      rw [readOver_concat, length_alphabet, hdigit, List.length_append,
        List.length_singleton] at hlt
      refine ⟨pre ++ [nextChar c], fun post => ?_, ?_, hsub', ?_⟩
      · rw [hsplit, hsplit, incrementLoop_concat, if_neg hz]
      · rw [List.length_append, List.length_singleton]
      · rw [readOver_concat, length_alphabet, hdigit]
        exact (Nat.mod_eq_of_lt hlt).symm

/-! ## Names -/

theorem exists_next (name : Name) : ∃ next : Name, increment name.chars = next.chars
    ∧ (∀ rest, increment (name.chars ++ rest) = next.chars ++ rest)
    ∧ next.number = (name.number + 1) % 62 ^ 10 := by
  have hlen : name.chars.length = 10 := name.length
  obtain ⟨chars, hloop, hlen', hvalid, hread⟩ := incrementLoop_eq name.chars name.valid
  rw [hlen] at hloop hread
  have hchars := hloop []
  rw [List.append_nil, List.append_nil] at hchars
  exact ⟨⟨chars, hlen'.trans name.length, hvalid⟩, hchars, hloop, hread⟩

/-- The name after this one. -/
def Name.next (name : Name) : Name where
  chars := increment name.chars
  length := by
    obtain ⟨next, hchars, -⟩ := exists_next name
    rw [hchars, next.length]
  valid := by
    obtain ⟨next, hchars, -⟩ := exists_next name
    rw [hchars]
    exact next.valid

theorem increment_append (name : Name) (rest : List Char) :
    increment (name.chars ++ rest) = name.next.chars ++ rest := by
  obtain ⟨next, hchars, hrest, -⟩ := exists_next name
  rw [hrest, ← hchars]
  rfl

theorem number_next (name : Name) : name.next.number = (name.number + 1) % 62 ^ 10 := by
  obtain ⟨next, hchars, -, hnumber⟩ := exists_next name
  have hnext : name.next = next := Name.ext hchars
  rw [hnext, hnumber]

/-- The names are the numbers below `62 ^ 10`, and `next` counts them. -/
theorem counts_next : Counts Name.next Name.number (62 ^ 10) where
  lt name := by
    have hlt := readOver_lt one_lt_alphabet name.valid
    rwa [length_alphabet, name.length] at hlt
  injective name name' h :=
    Name.ext (readOver_inj one_lt_alphabet name.valid name'.valid
      (name.length.trans name'.length.symm) h)
  surjective v hv := by
    rw [← length_alphabet] at hv
    obtain ⟨chars, hlen, hvalid, hread⟩ := exists_readOver nodup_alphabet hv
    exact ⟨⟨chars, hlen, hvalid⟩, hread⟩
  step := number_next

theorem iterate_increment (name : Name) (rest : List Char) (i : Nat) :
    increment^[i] (name.chars ++ rest) = (Name.next^[i] name).chars ++ rest := by
  induction i with
  | zero => rfl
  | succ i ih =>
    rw [Function.iterate_succ_apply', ih, Function.iterate_succ_apply', increment_append]

theorem chars_iterate (name : Name) (i : Nat) :
    increment^[i] name.chars = (Name.next^[i] name).chars := by
  have happend := iterate_increment name [] i
  rwa [List.append_nil, List.append_nil] at happend

/-- **`increment` takes each name to the next one, and comes to all of them**: it adds one to the
    number, from the last one to the first; from any start, each name is met once in `62 ^ 10`
    steps, which end at the start. -/
theorem increment_counts :
    (∀ name : Name, ∃ next : Name, increment name.chars = next.chars
      ∧ next.number = (name.number + 1) % 62 ^ 10)
    ∧ ∀ start : Name, increment^[62 ^ 10] start.chars = start.chars
      ∧ ∀ name : Name, ∃! i, i < 62 ^ 10 ∧ increment^[i] start.chars = name.chars := by
  refine ⟨fun name => ⟨name.next, rfl, number_next name⟩, fun start => ⟨?_, fun name => ?_⟩⟩
  · rw [chars_iterate, counts_next.iterate_period]
  · obtain ⟨i, ⟨hi, hname⟩, honly⟩ := counts_next.existsUnique_iterate start name
    refine ⟨i, ⟨hi, by rw [chars_iterate, hname]⟩, ?_⟩
    rintro j ⟨hj, hchars⟩
    refine honly j ⟨hj, Name.ext ?_⟩
    rw [← hchars, chars_iterate]

/-! ## The search -/

/-- Those of the first `n` names that have the hash. -/
def found (hash : BitVec 32) (start : Name) (n : Nat) : List Name :=
  ((List.range n).map fun i => Name.next^[i] start).filter fun name =>
    decide (xfsDaHashname name.chars = hash)

/-- The file with `names` in it, numbered from `hashCnt` on. -/
def fileOf (hashCnt : UInt32) (rest : List Char) (names : List Name) : List Char :=
  names.zipIdx.flatMap fun p => lineText (hashCnt + UInt32.ofNat p.2) (p.1.chars ++ rest)

section Search

variable (hash : BitVec 32) (hashCnt : UInt32) (rest : List Char)

theorem found_succ (start : Name) (n : Nat) : found hash start (n + 1) = found hash start n ++
    if xfsDaHashname (Name.next^[n] start).chars = hash then [Name.next^[n] start] else [] := by
  rw [found, List.range_succ, List.map_append, List.filter_append, List.map_singleton,
    List.filter_singleton, ← found, Bool.cond_decide]

theorem fileOf_concat (names : List Name) (name : Name) : fileOf hashCnt rest (names ++ [name]) =
    fileOf hashCnt rest names
      ++ lineText (hashCnt + UInt32.ofNat names.length) (name.chars ++ rest) := by
  rw [fileOf, List.zipIdx_append, List.flatMap_append, ← fileOf, Nat.zero_add,
    List.zipIdx_singleton, List.flatMap_singleton]

theorem round_name (name : Name) (file : List Char) :
    Search.round hash ⟨name.chars ++ rest, hashCnt, file⟩ =
      if xfsDaHashname name.chars = hash then
        ⟨name.next.chars ++ rest, hashCnt + 1, file ++ lineText hashCnt (name.chars ++ rest)⟩
      else ⟨name.next.chars ++ rest, hashCnt, file⟩ := by
  have htake : (name.chars ++ rest).take numLen = name.chars := List.take_left' name.length
  rw [Search.round, htake, increment_append]

/-- After some rounds, those of the names that have the hash are in the file, under their
    numbers. -/
theorem round_iterate (start : Name) (n : Nat) :
    (Search.round hash)^[n] ⟨start.chars ++ rest, hashCnt, []⟩ =
      ⟨(Name.next^[n] start).chars ++ rest, hashCnt + UInt32.ofNat (found hash start n).length,
        fileOf hashCnt rest (found hash start n)⟩ := by
  induction n with
  | zero => exact congrArg (Search.mk _ · _) (UInt32.add_zero hashCnt).symm
  | succ n ih =>
    rw [Function.iterate_succ_apply', ih, round_name, found_succ, Function.iterate_succ_apply']
    split
    · rw [fileOf_concat, List.length_append, List.length_singleton, UInt32.ofNat_add,
        UInt32.add_assoc]
      rfl
    · rw [List.append_nil]

end Search

/-- A round for each of the names, the first one being `start`. -/
theorem found_all {n : Nat} (hcounts : Counts Name.next Name.number n) (hash : BitVec 32)
    (start : Name) : (found hash start n).Nodup
      ∧ ∀ name, name ∈ found hash start n ↔ xfsDaHashname name.chars = hash := by
  constructor
  · refine (List.nodup_range.map_on fun i hi j hj h => ?_).filter _
    exact hcounts.iterate_inj (List.mem_range.mp hi) (List.mem_range.mp hj) h
  · intro name
    rw [found, List.mem_filter, decide_eq_true_iff]
    refine and_iff_right (List.mem_map.mpr ?_)
    obtain ⟨i, hi, hname⟩ := hcounts.exists_iterate start name
    exact ⟨i, List.mem_range.mpr hi, hname⟩

theorem digit_mem_alphabet {c : Char} (hc : c.isDigit = true) : c ∈ alphabet := by
  have hrange : 48 ≤ c.toNat ∧ c.toNat ≤ 57 := Char.isDigit_iff_toNat.mp hc
  refine List.mem_append_left _ (List.mem_append_left _ (List.mem_map.mpr ⟨c.toNat - 48, ?_, ?_⟩))
  · exact List.mem_range.mpr (by omega)
  · have hnat : '0'.toNat + (c.toNat - 48) = c.toNat := by
      have hzero : '0'.toNat = 48 := rfl
      omega
    rw [hnat, Char.ofNat_toNat]

/-- The first name is the number with zeros before it; of a longer one the first ten digits
    count. -/
theorem startText_eq (n : Nat) : ∃ (start : Name) (rest : List Char),
    (Nat.toDigits 10 n).leftpad 10 '0' = start.chars ++ rest ∧ (n < 10 ^ 10 → rest = []) := by
  have hlen : ((Nat.toDigits 10 n).leftpad 10 '0').length = max 10 (Nat.toDigits 10 n).length :=
    List.length_leftpad
  have hvalid : (Nat.toDigits 10 n).leftpad 10 '0' ⊆ alphabet := by
    intro c hc
    rcases List.mem_append.mp hc with hc | hc
    · rw [List.eq_of_mem_replicate hc]
      exact digit_mem_alphabet rfl
    · exact digit_mem_alphabet (Nat.isDigit_of_mem_toDigits (by decide) (by decide) hc)
  refine ⟨⟨((Nat.toDigits 10 n).leftpad 10 '0').take 10, ?_, ?_⟩,
    ((Nat.toDigits 10 n).leftpad 10 '0').drop 10, (List.take_append_drop 10 _).symm, fun hn => ?_⟩
  · rw [List.length_take, hlen, numLen]
    omega
  · exact fun c hc => hvalid (List.mem_of_mem_take hc)
  · have hshort := (Nat.length_toDigits_le_iff (by decide) (by decide)).mpr hn
    refine List.drop_eq_nil_of_le ?_
    rw [hlen]
    omega

/-- **In `62 ^ 10` rounds the search finds all names that have the hash, and each once**, from any
    start. Behind a start of more than ten digits, all names have the other digits behind them. -/
theorem gensamehash_complete (hash : BitVec 32) (hashCnt : UInt32) (startNum : UInt64) :
    ∃ rest : List Char, (startNum.toNat < 10 ^ 10 → rest = []) ∧ ∃ names : List Name, names.Nodup
      ∧ (∀ name, name ∈ names ↔ xfsDaHashname name.chars = hash)
      ∧ (gensamehash hash hashCnt startNum (62 ^ 10)).file = fileOf hashCnt rest names := by
  obtain ⟨start, rest, hstart, hrest⟩ := startText_eq startNum.toNat
  obtain ⟨hnodup, hall⟩ := found_all counts_next hash start
  refine ⟨rest, hrest, found hash start (62 ^ 10), hnodup, hall, ?_⟩
  rw [gensamehash, hstart, round_iterate]

end Umka.Proof.Tools
