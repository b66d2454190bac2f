import Mathlib.Data.List.TakeWhile
import Umka.Acpi.DevicesDat

/-!
# Reading a package back

`acpi_get` counts the elements of a package by its opening brackets and reads the numbers from left
to right, jumping over everything between them. The two agree on a reply that is complete. A reply
that is cut off has lost the bracket that closes the package, whatever else it has lost: up to there
more brackets have been opened than closed, so the counts differ and the program ends.
-/

set_option autoImplicit false

namespace Umka.Proof.Acpi

open Lib Umka.Acpi

/-! ## The text of a package -/

/-- `0x` and at least one hexadecimal digit, in either case and with or without leading zeros. -/
def HexText (v : Nat) (t : List Char) : Prop :=
  ∃ ds, t = '0' :: 'x' :: ds ∧ ds ≠ [] ∧ (∀ c ∈ ds, (hexDigit? c).isSome = true) ∧ hexValue ds = v
    ∧ v < 2 ^ 64

/-- `[0xA, 0xB, 0xC, 0xD]`. -/
def QuadText (q : Quad) (t : List Char) : Prop :=
  ∃ t₀ t₁ t₂ t₃, HexText q.v0 t₀ ∧ HexText q.v1 t₁ ∧ HexText q.v2 t₂ ∧ HexText q.v3 t₃
    ∧ t = '[' :: (t₀ ++ ',' :: ' ' :: (t₁ ++ ',' :: ' ' :: (t₂ ++ ',' :: ' ' :: (t₃ ++ [']']))))

/-- The elements, with a comma and a blank between them. -/
inductive QuadsText : List Quad → List Char → Prop
  | nil : QuadsText [] []
  | one {q : Quad} {t : List Char} (h : QuadText q t) : QuadsText [q] t
  | more {q q' : Quad} {qs : List Quad} {t body : List Char} (h : QuadText q t)
      (hrest : QuadsText (q' :: qs) body) : QuadsText (q :: q' :: qs) (t ++ ',' :: ' ' :: body)

/-- `[[0xA, 0xB, 0xC, 0xD], ...]`. -/
def PackageText (qs : List Quad) (t : List Char) : Prop :=
  ∃ body, QuadsText qs body ∧ t = '[' :: (body ++ [']'])

/-! ## Numbers -/

/-- The characters that `acpi_get_next_number` jumps over. -/
def Skipped (cs : List Char) : Prop := ∀ c ∈ cs, c ∈ ['[', ']', ' ', ',']

theorem skipped_of_all {cs : List Char} (h : cs.all (decide <| · ∈ ['[', ']', ' ', ',']) = true) :
    Skipped cs := fun c hc => of_decide_eq_true (List.all_eq_true.mp h c hc)

/-- `strtoull` takes the digits and stops behind them. -/
theorem strtoull16_hex {t rest : List Char} {v : Nat} (ht : HexText v t)
    (hrest : ∀ c ∈ rest.head?, (hexDigit? c).isSome = false) :
    strtoull16 (t ++ rest) = (v, rest) := by
  obtain ⟨ds, rfl, hne, hds, rfl, hlt⟩ := ht
  obtain ⟨d, ds, rfl⟩ := List.exists_cons_of_ne_nil hne
  have hd : (hexDigit? d).isSome = true := hds d List.mem_cons_self
  have htake := (takeWhile_append_stop (w := d :: ds) hrest).1
  rw [List.takeWhile_eq_self_iff.mpr hds] at htake
  have hsigned : ('0' :: 'x' :: d :: ds ++ rest).dropWhile isSpace
      = '0' :: 'x' :: d :: (ds ++ rest) :=
    List.dropWhile_cons_of_neg (by decide)
  unfold strtoull16
  rw [hsigned]
  simp only [List.head?_cons, Option.some.injEq, Char.reduceEq, or_self, if_false, true_or, hd,
    and_self, if_true]
  rw [← List.cons_append, htake, if_neg (List.cons_ne_nil _ _), if_neg (Nat.not_le.mpr hlt),
    List.drop_left]

/-- The next number is read, and what follows it is left. -/
theorem getNextNumber_hex {pre t rest : List Char} {v : Nat} (hpre : Skipped pre) (ht : HexText v t)
    (hrest : ∀ c ∈ rest.head?, (hexDigit? c).isSome = false) :
    acpiGetNextNumber (pre ++ (t ++ rest)) = (v, rest) := by
  have hskip : (pre ++ (t ++ rest)).dropWhile (· ∈ ['[', ']', ' ', ',']) = t ++ rest := by
    rw [List.dropWhile_append_of_pos fun c hc => decide_eq_true (hpre c hc)]
    obtain ⟨ds, rfl, -⟩ := ht
    exact List.dropWhile_cons_of_neg (by decide)
  rw [acpiGetNextNumber, hskip, strtoull16_hex ht hrest]

/-- One element of the package. -/
theorem readQuads_quad {pre t rest : List Char} {q : Quad} (n : Nat) (hpre : Skipped pre)
    (ht : QuadText q t) : readQuads (n + 1) (pre ++ (t ++ rest))
      = q :: readQuads n (']' :: rest) := by
  obtain ⟨t₀, t₁, t₂, t₃, h₀, h₁, h₂, h₃, rfl⟩ := ht
  have hopen : Skipped (pre ++ ['[']) := by
    intro c hc
    rcases List.mem_append.mp hc with hc | hc
    · exact hpre c hc
    · exact List.mem_singleton.mp hc ▸ List.mem_cons_self
  have hcomma : Skipped [',', ' '] := skipped_of_all rfl
  have hstop : ∀ rest' : List Char, ∀ c ∈ ([',', ' '] ++ rest').head?,
      (hexDigit? c).isSome = false := by
    rintro rest' c ⟨⟩
    rfl
  have hend : ∀ c ∈ (']' :: rest).head?, (hexDigit? c).isSome = false := by
    rintro c ⟨⟩
    rfl
  have htext :
      pre ++ ('[' :: (t₀ ++ ',' :: ' ' :: (t₁ ++ ',' :: ' ' :: (t₂ ++ ',' :: ' ' :: (t₃ ++ [']']))))
        ++ rest)
      = (pre ++ ['[']) ++ (t₀ ++ ([',', ' '] ++ (t₁ ++ ([',', ' '] ++ (t₂ ++ ([',', ' '] ++
        (t₃ ++ ']' :: rest))))))) := by
    simp only [List.append_assoc, List.cons_append, List.nil_append]
  rw [htext, readQuads]
  simp only [getNextNumber_hex hopen h₀ (hstop _), getNextNumber_hex hcomma h₁ (hstop _),
    getNextNumber_hex hcomma h₂ (hstop _), getNextNumber_hex hcomma h₃ hend]

/-- As many elements as there are. -/
theorem readQuads_quads {qs : List Quad} {body : List Char} (h : QuadsText qs body) :
    ∀ pre rest : List Char, Skipped pre → readQuads qs.length (pre ++ (body ++ rest)) = qs := by
  induction h with
  | nil =>
    intro pre rest _
    rfl
  | one ht =>
    intro pre rest hpre
    rw [List.length_singleton, readQuads_quad 0 hpre ht]
    rfl
  | @more q q' qs t body ht hrest ih =>
    intro pre rest hpre
    have hnext := ih [']', ',', ' '] rest (skipped_of_all rfl)
    rw [List.length_cons, List.append_assoc, readQuads_quad _ hpre ht]
    exact congrArg (q :: ·) hnext

/-! ## Brackets -/

theorem HexText.notMem {v : Nat} {t : List Char} (h : HexText v t) {c : Char}
    (hc : (hexDigit? c).isSome = false) (hx : c ≠ 'x') : c ∉ t := by
  obtain ⟨ds, rfl, -, hds, -⟩ := h
  intro hmem
  rcases List.mem_cons.mp hmem with rfl | hmem
  · exact absurd hc (by decide)
  · rcases List.mem_cons.mp hmem with rfl | hmem
    · exact hx rfl
    · exact Bool.false_ne_true (hc.symm.trans (hds c hmem))

theorem HexText.count {v : Nat} {t : List Char} (h : HexText v t) :
    t.count '[' = 0 ∧ t.count ']' = 0 :=
  ⟨List.count_eq_zero.mpr (h.notMem (by decide) (by decide)),
    List.count_eq_zero.mpr (h.notMem (by decide) (by decide))⟩

theorem QuadText.count {q : Quad} {t : List Char} (h : QuadText q t) :
    t.count '[' = 1 ∧ t.count ']' = 1 := by
  obtain ⟨t₀, t₁, t₂, t₃, h₀, h₁, h₂, h₃, rfl⟩ := h
  constructor
  · simp [h₀.count.1, h₁.count.1, h₂.count.1, h₃.count.1]
  · simp [h₀.count.2, h₁.count.2, h₂.count.2, h₃.count.2]

theorem QuadsText.count {qs : List Quad} {body : List Char} (h : QuadsText qs body) :
    body.count '[' = qs.length ∧ body.count ']' = qs.length := by
  induction h with
  | nil => exact ⟨rfl, rfl⟩
  | one ht => exact ht.count
  | more ht hrest ih =>
    constructor
    · simp [ht.count.1, ih.1, Nat.add_comm]
    · simp [ht.count.2, ih.2, Nat.add_comm]

/-- Wherever the text is cut, no more brackets have been closed than opened. -/
def Opens (t : List Char) : Prop := ∀ p, p <+: t → p.count ']' ≤ p.count '['

theorem Opens.append {a b : List Char} (ha : Opens a) (hb : Opens b) : Opens (a ++ b) := by
  intro p hp
  rcases Nat.le_total p.length a.length with hlen | hlen
  · exact ha p (List.prefix_of_prefix_length_le hp (List.prefix_append a b) hlen)
  · obtain ⟨q, rfl⟩ := List.prefix_of_prefix_length_le (List.prefix_append a b) hp hlen
    have hq := hb q ((List.prefix_append_right_inj a).mp hp)
    have hfull := ha a (List.prefix_refl a)
    rw [List.count_append, List.count_append]
    omega

/-- An element opens its bracket at once and closes it once. -/
theorem QuadText.opens {q : Quad} {t : List Char} (h : QuadText q t) : Opens t := by
  intro p hp
  have hclose : p.count ']' ≤ 1 := h.count.2 ▸ hp.sublist.count_le ']'
  cases p with
  | nil => exact Nat.le_refl 0
  | cons c p =>
    obtain ⟨t₀, t₁, t₂, t₃, -, -, -, -, rfl⟩ := h
    obtain rfl : c = '[' := (List.cons_prefix_cons.mp hp).1
    rw [List.count_cons_self]
    omega

theorem opens_comma : Opens [',', ' '] := by
  intro p hp
  have hclose : p.count ']' ≤ 0 := hp.sublist.count_le ']'
  omega

theorem QuadsText.opens {qs : List Quad} {body : List Char} (h : QuadsText qs body) :
    Opens body := by
  induction h with
  | nil =>
    intro p hp
    rw [List.prefix_nil.mp hp]
    exact Nat.le_refl 0
  | one ht => exact ht.opens
  | more ht hrest ih => exact ht.opens.append (opens_comma.append ih)

/-- A package that is cut off has a bracket open. -/
theorem PackageText.open_of_prefix {qs : List Quad} {t p : List Char} (h : PackageText qs t)
    (hp : p <+: t) (hne : p ≠ []) (hcut : p ≠ t) : p.count ']' < p.count '[' := by
  obtain ⟨body, hbody, rfl⟩ := h
  obtain ⟨c, q, rfl⟩ := List.exists_cons_of_ne_nil hne
  obtain ⟨rfl, hq⟩ := List.cons_prefix_cons.mp hp
  rcases List.prefix_concat_iff.mp hq with heq | hq
  · exact absurd (congrArg ('[' :: ·) heq) hcut
  · have hle := hbody.opens q hq
    rw [List.count_cons_self, List.count_cons_of_ne (by decide)]
    omega

/-! ## What `acpi_get` makes of a reply -/

theorem QuadText.nul_notMem {q : Quad} {t : List Char} (h : QuadText q t) : nul ∉ t := by
  obtain ⟨t₀, t₁, t₂, t₃, h₀, h₁, h₂, h₃, rfl⟩ := h
  have hnul : ∀ {v : Nat} {t : List Char}, HexText v t → nul ∉ t := fun h =>
    h.notMem (by decide) (by decide)
  have hsep : nul ≠ '[' ∧ nul ≠ ']' ∧ nul ≠ ',' ∧ nul ≠ ' ' := by decide
  simp [hnul h₀, hnul h₁, hnul h₂, hnul h₃, hsep]

theorem QuadsText.nul_notMem {qs : List Quad} {body : List Char} (h : QuadsText qs body) :
    nul ∉ body := by
  have hsep : nul ≠ ',' ∧ nul ≠ ' ' := by decide
  induction h with
  | nil => exact List.not_mem_nil
  | one ht => exact ht.nul_notMem
  | more ht hrest ih => simp [ht.nul_notMem, ih, hsep]

theorem PackageText.nul_notMem {qs : List Quad} {t : List Char} (h : PackageText qs t) :
    nul ∉ t := by
  obtain ⟨body, hbody, rfl⟩ := h
  have hsep : nul ≠ '[' ∧ nul ≠ ']' := by decide
  simp [hbody.nul_notMem, hsep]

section Get

variable {call : AcpiCall} {path reply text : List Char}

/-- What `acpi_get` has to go on is the reply as far as the buffer goes, without its last
    character. -/
theorem acpiGet_bracket (hcall : call path = some reply)
    (htext : (reply.take acpiBufSize).dropLast = '[' :: text) (hnul : nul ∉ '[' :: text) :
    acpiGet call path =
      if ('[' :: text).count '[' ≠ ('[' :: text).count ']' then .error .exited
      else .ok (some (.package (readQuads (('[' :: text).count '[' - 1) ('[' :: text)))) := by
  have hread : reply.take acpiBufSize ≠ [] := by
    intro hnil
    rw [hnil] at htext
    cases htext
  have hstr : ('[' :: text).takeWhile (· ≠ nul) = '[' :: text :=
    List.takeWhile_eq_self_iff.mpr fun c hc => decide_eq_true (fun h => hnul (h ▸ hc))
  rw [acpiGet, hcall]
  simp only [if_neg hread, htext, hstr]

/-- A whole package is read back. -/
theorem acpiGet_whole {qs : List Quad} {t : List Char} (h : PackageText qs t)
    (hcall : call path = some reply) (htext : (reply.take acpiBufSize).dropLast = t) :
    acpiGet call path = .ok (some (.package qs)) := by
  have hnul := h.nul_notMem
  obtain ⟨body, hbody, rfl⟩ := h
  have hopen : ('[' :: (body ++ [']'])).count '[' = qs.length + 1 := by
    simp [hbody.count.1]
  have hclose : ('[' :: (body ++ [']'])).count ']' = qs.length + 1 := by
    simp [hbody.count.2]
  have hquads := readQuads_quads hbody ['['] [']'] (skipped_of_all rfl)
  rw [acpiGet_bracket hcall htext hnul, hopen, hclose, if_neg (not_not.mpr rfl), Nat.add_sub_cancel]
  exact congrArg (fun quads => Except.ok (some (AcpiValue.package quads))) hquads

/-- Part of one is not. -/
theorem acpiGet_cut {qs : List Quad} {t p : List Char} (h : PackageText qs t) (hp : p <+: t)
    (hne : p ≠ []) (hcut : p ≠ t) (hcall : call path = some reply)
    (htext : (reply.take acpiBufSize).dropLast = p) : acpiGet call path = .error .exited := by
  have hlt := h.open_of_prefix hp hne hcut
  have hnul : nul ∉ p := fun hmem => h.nul_notMem (hp.subset hmem)
  obtain ⟨body, -, rfl⟩ := h
  obtain ⟨c, q, rfl⟩ := List.exists_cons_of_ne_nil hne
  obtain ⟨rfl, -⟩ := List.cons_prefix_cons.mp hp
  rw [acpiGet_bracket hcall htext hnul, if_pos (Nat.ne_of_gt hlt)]

end Get

/-- What is left of a reply in the buffer: as much as fits, with one character for the NUL. -/
theorem dropLast_take_concat (t : List Char) (c : Char) {n : Nat} (hn : 0 < n) :
    ((t ++ [c]).take n).dropLast = t.take (n - 1) := by
  rcases Nat.lt_or_ge t.length n with hlt | hge
  · rw [List.take_of_length_le (by rw [List.length_append, List.length_singleton]; omega),
      List.dropLast_concat, List.take_of_length_le (by omega)]
  · rw [List.take_append_of_le_length hge, List.dropLast_eq_take, List.length_take,
      Nat.min_eq_left hge, List.take_take, Nat.min_eq_left (Nat.sub_le n 1)]

/-- **A package is read back exactly if the reply is complete and fits in the buffer.** Cut off
    anywhere, by the buffer or before it, it is rejected; only of a single character nothing is left
    to look at, and there is no value at all. -/
theorem package_readBack {qs : List Quad} {t : List Char} (h : PackageText qs t) (c : Char)
    (call : AcpiCall) (path : List Char) :
    (call path = some (t ++ [c]) → t.length < acpiBufSize →
      acpiGet call path = .ok (some (.package qs)))
    ∧ (call path = some (t ++ [c]) → acpiBufSize ≤ t.length → acpiGet call path = .error .exited)
    ∧ ∀ p, p <+: t → p ≠ [] → p ≠ t →
        (call path = some (p ++ [c]) → acpiGet call path = .error .exited)
        ∧ (call path = some p → acpiGet call path = .error .exited
          ∨ p.length = 1 ∧ acpiGet call path = .ok none) := by
  have hbuf : acpiBufSize - 1 = 4095 := rfl
  -- all that was cut off has the same reason: what is left is shorter, but not empty
  have hreject : ∀ {reply text : List Char}, call path = some reply →
      (reply.take acpiBufSize).dropLast = text → text <+: t → 0 < text.length →
      text.length < t.length → acpiGet call path = .error .exited := by
    intro reply text hcall htext hpre hpos hlen
    exact acpiGet_cut h hpre (List.length_pos_iff.mp hpos) (fun heq => by rw [heq] at hlen; omega)
      hcall htext
  refine ⟨fun hcall hfits => ?_, fun hcall hlong => ?_,
    fun p hp hne hcut => ⟨fun hcall => ?_, fun hcall => ?_⟩⟩
  · refine acpiGet_whole h hcall ?_
    rw [dropLast_take_concat t c (by decide), List.take_of_length_le (by omega)]
  · refine hreject hcall (dropLast_take_concat t c (by decide)) (List.take_prefix _ _) ?_ ?_
    · rw [List.length_take]
      omega
    · rw [List.length_take]
      omega
  · have hlen : p.length < t.length :=
      Nat.lt_of_le_of_ne hp.length_le fun heq => hcut (hp.eq_of_length heq)
    have hpos := List.length_pos_iff.mpr hne
    refine hreject hcall (dropLast_take_concat p c (by decide))
      ((List.take_prefix _ _).trans hp) ?_ ?_
    · rw [List.length_take]
      omega
    · rw [List.length_take]
      omega
  · by_cases hone : p.length = 1
    · obtain ⟨c', rfl⟩ := List.length_eq_one_iff.mp hone
      refine .inr ⟨rfl, ?_⟩
      rw [acpiGet, hcall]
      rfl
    · have hpos := List.length_pos_iff.mpr hne
      have hle := hp.length_le
      refine .inl (hreject hcall rfl
        (((List.dropLast_prefix _).trans (List.take_prefix _ _)).trans hp) ?_ ?_)
      · rw [List.length_dropLast, List.length_take]
        omega
      · rw [List.length_dropLast, List.length_take]
        omega

/-- Two quadruples, and the same reply cut inside the second one. -/
theorem package_readBack_two :
    acpiGet (fun _ => some "[[0x1FFFF, 0x0, 0x0, 0x12], [0x2FFFF, 0x1, 0x0, 0x13]]\n".toList)
        "\\_SB_.PCI0._PRT".toList
      = .ok (some (.package [⟨0x1ffff, 0, 0, 0x12⟩, ⟨0x2ffff, 1, 0, 0x13⟩]))
    ∧ acpiGet (fun _ => some "[[0x1FFFF, 0x0, 0x0, 0x12], [0x2FFFF\n".toList)
        "\\_SB_.PCI0._PRT".toList = .error .exited := by
  have hhex : ∀ n ds, ds ≠ [] → ds.all (fun c => (hexDigit? c).isSome) = true → hexValue ds = n →
      n < 2 ^ 64 → HexText n ('0' :: 'x' :: ds) := fun n ds hne hall hvalue hlt =>
    ⟨ds, rfl, hne, List.all_eq_true.mp hall, hvalue, hlt⟩
  have hzero : HexText 0 "0x0".toList := hhex 0 ['0'] (by decide) rfl (by decide) (by decide)
  have hfirst : QuadText ⟨0x1ffff, 0, 0, 0x12⟩ "[0x1FFFF, 0x0, 0x0, 0x12]".toList :=
    ⟨"0x1FFFF".toList, "0x0".toList, "0x0".toList, "0x12".toList,
      hhex 0x1ffff "1FFFF".toList (by decide) rfl (by decide) (by decide), hzero, hzero,
      hhex 0x12 "12".toList (by decide) rfl (by decide) (by decide), by decide⟩
  have hsecond : QuadText ⟨0x2ffff, 1, 0, 0x13⟩ "[0x2FFFF, 0x1, 0x0, 0x13]".toList :=
    ⟨"0x2FFFF".toList, "0x1".toList, "0x0".toList, "0x13".toList,
      hhex 0x2ffff "2FFFF".toList (by decide) rfl (by decide) (by decide),
      hhex 1 "1".toList (by decide) rfl (by decide) (by decide), hzero,
      hhex 0x13 "13".toList (by decide) rfl (by decide) (by decide), by decide⟩
  have htext : PackageText [⟨0x1ffff, 0, 0, 0x12⟩, ⟨0x2ffff, 1, 0, 0x13⟩]
      "[[0x1FFFF, 0x0, 0x0, 0x12], [0x2FFFF, 0x1, 0x0, 0x13]]".toList :=
    ⟨_, .more hfirst (.one hsecond), by decide⟩
  exact ⟨(package_readBack htext '\n' _ _).1 rfl (by decide),
    ((package_readBack htext '\n' _ _).2.2 "[[0x1FFFF, 0x0, 0x0, 0x12], [0x2FFFF".toList
      (by decide) (by decide) (by decide)).1 rfl⟩

end Umka.Proof.Acpi
