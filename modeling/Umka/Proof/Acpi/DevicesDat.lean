import Umka.Acpi.DevicesDat

/-!
# When the namespace does not depend on the order of the devices

`NamespaceOf` is the tree a set of firmware paths should give: one device for each prefix of a
path, each with its `_ADR`, and with its `_PRT` if some path goes on below it. The program gives
a device its `_PRT` only when it makes it, and makes it for the first path that goes through it;
when that path ends there, the `_PRT` is missing for good. `ordersAgree_iff` says which listings
come out right: those in which the first path through a device with devices below it goes on
below it, no name below the first level is `_ADR` or `_PRT`, and the firmware answers.
-/

set_option autoImplicit false

namespace Umka.Proof.Acpi

open Lib (Forest)
open Umka.Acpi

/-- A firmware path, as its names. -/
abbrev Path := List Seg

/-- `S1.S2...Sk`. -/
def dotted : Path → List Char
  | [] => []
  | [s] => s.chars
  | s :: rest => s.chars ++ '.' :: dotted rest

/-- `\S1.S2...Sk`. -/
def render (p : Path) : List Char := '\\' :: dotted p

/-! ## What the tree should be -/

/-- The way to the device of a path. -/
def devs (q : Path) : List (Seg × NodeKind) := q.map fun s => (s, .device)

section Spec

variable (call : AcpiCall)

/-- The firmware has the value, and there is room to ask for it. -/
def Answers (q : Path) (name : Seg) : Prop := ∃ v, acpiGetAt call q.reverse name = .ok v

/-- The nodes that belong to the device `q` below `chain`: itself, its `_ADR`, and its `_PRT` if
    it is to have one. -/
def NodeEntry (chain : List Seg) (q : Path) (prt : Prop) (e : List (Seg × NodeKind)) : Prop :=
  e = devs q ∨
  (∃ v, acpiGetAt call (q.reverse ++ chain) adrName = .ok v ∧ e = devs q ++ [(adrName, .value v)]) ∨
  (prt ∧ ∃ v, acpiGetAt call (q.reverse ++ chain) prtName = .ok v ∧
    e = devs q ++ [(prtName, .value v)])

/-- Some path goes on below `q`. -/
def HasBelow (ps : List Path) (q : Path) : Prop := ∃ p ∈ ps, q <+: p ∧ q ≠ p

/-- The namespace of a set of paths. -/
structure NamespaceOf (ps : List Path) (t : Nodes) : Prop where
  once : t.entries.Nodup
  entries : ∀ e, e ∈ t.entries ↔ ∃ q, q ≠ [] ∧ (∃ p ∈ ps, q <+: p) ∧
    NodeEntry call [] q (HasBelow ps q) e
  adr : ∀ p ∈ ps, ∀ q, q ≠ [] → q <+: p → Answers call q adrName
  prt : ∀ q, q ≠ [] → HasBelow ps q → Answers call q prtName

/-- Two orders of the same paths both give the namespace, up to the order of siblings. -/
def OrdersAgree (ps qs : List Path) : Prop :=
  ∃ t t', processDevs call (ps.map render) .empty = .ok t ∧
    processDevs call (qs.map render) .empty = .ok t' ∧ Forest.Same t t' ∧ NamespaceOf call ps t

/-! ## The condition -/

/-- The first path that goes through `q` goes on below it. -/
def FirstGoesOn : List Path → Path → Prop
  | [], _ => False
  | p :: ps, q => if q <+: p then q ≠ p else FirstGoesOn ps q

/-- The listings that come out right. -/
structure InOrder (ps : List Path) : Prop where
  names : ∀ p ∈ ps, ∀ s ∈ p.tail, s ≠ adrName ∧ s ≠ prtName
  first : ∀ q, q ≠ [] → HasBelow ps q → FirstGoesOn ps q
  adr : ∀ p ∈ ps, ∀ q, q ≠ [] → q <+: p → Answers call q adrName
  prt : ∀ q, q ≠ [] → HasBelow ps q → Answers call q prtName

end Spec

/-! ## Paths and their names -/

/-- The names of a path, each with whether another one follows. -/
def marked : Path → List (Seg × Bool)
  | [] => []
  | s :: rest => (s, decide (rest ≠ [])) :: marked rest

theorem namesOf_dotted (p : Path) : namesOf (dotted p) = marked p := by
  induction p with
  | nil => rfl
  | cons s rest ih =>
    obtain ⟨cs, hcs⟩ := s
    obtain ⟨a, b, c, d, rfl⟩ := List.length_eq_four.mp hcs
    cases rest with
    | nil => rfl
    | cons s' rest =>
      have hlong : 1 < (dotted (s' :: rest)).length := by
        have hlen := s'.size_eq
        cases rest <;> simp only [dotted, List.length_append, List.length_cons] <;> omega
      show namesOf (a :: b :: c :: d :: '.' :: dotted (s' :: rest)) = _
      rw [namesOf, ih, marked, decide_eq_true hlong]
      rfl

theorem processDev_render (call : AcpiCall) (p : Path) (root : Nodes) :
    acpiProcessDev call (render p) root = descend call [] (marked p) root := by
  rw [acpiProcessDev, ← namesOf_dotted]
  rfl

/-! ## One path -/

section OnePath

variable {call : AcpiCall} {chain : List Seg}

/-- What a new device starts with. -/
theorem newDevice_ok {more : Bool} {k : NodeKind} {cs : Nodes}
    (h : newDevice call chain more = .ok (k, cs)) :
    k = .device ∧ cs.Distinct ∧ ∀ e, e ∈ cs.entries ↔
      (∃ v, acpiGetAt call chain adrName = .ok v ∧ e = [(adrName, .value v)]) ∨
      (more = true ∧ ∃ v, acpiGetAt call chain prtName = .ok v ∧ e = [(prtName, .value v)]) := by
  unfold newDevice at h
  cases ha : acpiGetAt call chain adrName with
  | error e => rw [ha] at h; cases h
  | ok adr =>
    rw [ha] at h
    cases more with
    | false =>
      cases h
      exact ⟨rfl, by simp [Forest.Distinct, Forest.child?], fun e => by simp⟩
    | true =>
      cases hp : acpiGetAt call chain prtName with
      | error e => rw [hp] at h; cases h
      | ok prt =>
        rw [hp] at h
        cases h
        exact ⟨rfl, by simp [Forest.Distinct, Forest.child?]; decide, fun e => by simp⟩

theorem newDevice_succeeds {more : Bool} (ha : ∃ v, acpiGetAt call chain adrName = .ok v)
    (hp : more = true → ∃ v, acpiGetAt call chain prtName = .ok v) :
    ∃ r, newDevice call chain more = .ok r := by
  obtain ⟨adr, ha⟩ := ha
  unfold newDevice
  rw [ha]
  cases more with
  | false => exact ⟨_, rfl⟩
  | true =>
    obtain ⟨prt, hp⟩ := hp rfl
    rw [hp]
    exact ⟨_, rfl⟩

/-- Siblings keep distinct names, whatever the paths are. -/
theorem descend_distinct {l : List (Seg × Bool)} : ∀ {chain : List Seg} {f f' : Nodes},
    descend call chain l f = .ok f' → f.Distinct → f'.Distinct := by
  induction l with
  | nil =>
    intro chain f f' h hf
    cases h
    exact hf
  | cons x rest ih =>
    intro chain f f' h hf
    obtain ⟨name, more⟩ := x
    refine hf.enter (fun k cs hk => (newDevice_ok hk).2.1) (fun cs cs' hcs => ih hcs) h

/-- A device may be asked to have a `_PRT` for another reason. -/
theorem NodeEntry.imp {q : Path} {prt prt' : Prop} {e : List (Seg × NodeKind)} (h : prt → prt')
    (he : NodeEntry call chain q prt e) : NodeEntry call chain q prt' e :=
  he.imp_right (Or.imp_right (And.imp_left h))

theorem nodeEntry_cons {s : Seg} {q : Path} {prt : Prop} {e : List (Seg × NodeKind)} :
    NodeEntry call chain (s :: q) prt e ↔
      ∃ e', e = (s, .device) :: e' ∧ NodeEntry call (s :: chain) q prt e' := by
  have hchain : (s :: q).reverse ++ chain = q.reverse ++ s :: chain := by simp
  unfold NodeEntry
  rw [hchain]
  constructor
  · rintro (rfl | ⟨v, hv, rfl⟩ | ⟨hp, v, hv, rfl⟩)
    · exact ⟨devs q, rfl, .inl rfl⟩
    · exact ⟨_, rfl, .inr (.inl ⟨v, hv, rfl⟩)⟩
    · exact ⟨_, rfl, .inr (.inr ⟨hp, v, hv, rfl⟩)⟩
  · rintro ⟨e', rfl, rfl | ⟨v, hv, rfl⟩ | ⟨hp, v, hv, rfl⟩⟩
    · exact .inl rfl
    · exact .inr (.inl ⟨v, hv, rfl⟩)
    · exact .inr (.inr ⟨hp, v, hv, rfl⟩)

/-- Below the first level no name is that of a value. -/
def Free (top : Bool) (q : Path) : Prop :=
  ∀ s ∈ (if top then q.tail else q), s ≠ adrName ∧ s ≠ prtName

theorem Free.tail {top : Bool} {s : Seg} {q : Path} (h : Free top (s :: q)) : Free false q := by
  intro x hx
  refine h x ?_
  cases top
  · exact List.mem_cons_of_mem s hx
  · exact hx

/-- Devices have free names, and values are named `_ADR` or `_PRT` and belong to a device. -/
def Shaped (top : Bool) (f : Nodes) : Prop :=
  ∀ e ∈ f.entries, ∃ q, Free top q ∧ (e = devs q ∨
    ∃ n v, (n = adrName ∨ n = prtName) ∧ (top = true → q ≠ []) ∧ e = devs q ++ [(n, .value v)])

/-- A free name is never that of a value. -/
theorem Shaped.kind_eq {top : Bool} {f : Nodes} {s : Seg} {q : Path} {k : NodeKind}
    (hs : Shaped top f) (hq : Free top (s :: q)) (h : [(s, k)] ∈ f.entries) : k = .device := by
  obtain ⟨r, -, hr | ⟨n, v, hn, htop, hr⟩⟩ := hs _ h
  · cases r with
    | nil => cases hr
    | cons x r =>
      simp only [devs, List.map_cons, List.cons.injEq, Prod.mk.injEq] at hr
      exact hr.1.2
  · cases r with
    | cons x r => simp [devs] at hr
    | nil =>
      cases top with
      | true => exact absurd rfl (htop rfl)
      | false =>
        simp only [devs, List.map_nil, List.nil_append, List.cons.injEq, Prod.mk.injEq] at hr
        have := hq s (by simp)
        rw [hr.1.1] at this
        rcases hn with hn | hn
        · exact absurd hn this.1
        · exact absurd hn this.2

/-- Below a device the tree has the same shape. -/
theorem Shaped.below {top : Bool} {f cs : Nodes} {s : Seg} (hs : Shaped top f)
    (h : ∀ e ∈ cs.entries, (s, .device) :: e ∈ f.entries) : Shaped false cs := by
  intro e he
  obtain ⟨q, hq, hr | ⟨n, v, hn, -, hr⟩⟩ := hs _ (h e he)
  · cases q with
    | nil => cases hr
    | cons x q =>
      simp only [devs, List.map_cons, List.cons.injEq, Prod.mk.injEq] at hr
      exact ⟨q, hq.tail, .inl hr.2⟩
  · cases q with
    | nil => simp [devs] at hr
    | cons x q =>
      simp only [devs, List.map_cons, List.cons_append, List.cons.injEq, Prod.mk.injEq] at hr
      exact ⟨q, hq.tail, .inr ⟨n, v, hn, nofun, hr.2⟩⟩

/-- What one path adds: the devices on it that were not there, each with what it is given when
    it is made. -/
def New (call : AcpiCall) (chain : List Seg) (p : Path) (f : Nodes) (e : List (Seg × NodeKind)) :
    Prop :=
  ∃ q, q ≠ [] ∧ q <+: p ∧ devs q ∉ f.entries ∧ NodeEntry call chain q (q ≠ p) e

theorem new_cons {s : Seg} {rest : Path} {f : Nodes} {e : List (Seg × NodeKind)} :
    New call chain (s :: rest) f e ↔ ∃ q, q <+: rest ∧ devs (s :: q) ∉ f.entries ∧
      ∃ e', e = (s, .device) :: e' ∧ NodeEntry call (s :: chain) q (q ≠ rest) e' := by
  constructor
  · rintro ⟨q, hq, hpre, hno, hent⟩
    cases q with
    | nil => exact absurd rfl hq
    | cons x q =>
      obtain ⟨rfl, hpre'⟩ := List.cons_prefix_cons.mp hpre
      rw [nodeEntry_cons] at hent
      simp only [ne_eq, List.cons.injEq, true_and] at hent
      exact ⟨q, hpre', hno, hent⟩
  · rintro ⟨q, hpre, hno, hent⟩
    refine ⟨s :: q, List.cons_ne_nil s q, List.cons_prefix_cons.mpr ⟨rfl, hpre⟩, hno, ?_⟩
    rw [nodeEntry_cons]
    simpa only [ne_eq, List.cons.injEq, true_and] using hent

/-- What a new device starts with are values. -/
theorem newDevice_value {more : Bool} {k : NodeKind} {cs : Nodes} {e : List (Seg × NodeKind)}
    (h : newDevice call chain more = .ok (k, cs)) (he : e ∈ cs.entries) :
    ∃ n v, (n = adrName ∨ n = prtName) ∧ e = [(n, .value v)] := by
  rcases ((newDevice_ok h).2.2 e).mp he with ⟨v, -, rfl⟩ | ⟨-, v, -, rfl⟩
  · exact ⟨adrName, v, .inl rfl, rfl⟩
  · exact ⟨prtName, v, .inr rfl, rfl⟩

theorem newDevice_shaped {more : Bool} {k : NodeKind} {cs : Nodes}
    (h : newDevice call chain more = .ok (k, cs)) : Shaped false cs := by
  intro e he
  obtain ⟨n, v, hn, rfl⟩ := newDevice_value h he
  exact ⟨[], nofun, .inr ⟨n, v, hn, nofun, rfl⟩⟩

/-- The device is there: the path adds below it only. -/
theorem entries_found {s : Seg} {rest : Path} {f₁ f₂ cs cs' : Nodes}
    (hf : (f₁.append (.node s .device cs f₂)).Distinct)
    (hch : (f₁.append (.node s .device cs f₂)).child? s = some (.device, cs))
    (hmem : ∀ e, e ∈ cs'.entries ↔ e ∈ cs.entries ∨ New call (s :: chain) rest cs e)
    (e : List (Seg × NodeKind)) :
    e ∈ (f₁.append (.node s .device cs' f₂)).entries ↔
      e ∈ (f₁.append (.node s .device cs f₂)).entries ∨
        New call chain (s :: rest) (f₁.append (.node s .device cs f₂)) e := by
  have hdev : ∀ q, devs (s :: q) ∉ (f₁.append (.node s .device cs f₂)).entries ↔
      q ≠ [] ∧ devs q ∉ cs.entries := by
    intro q
    have : devs (s :: q) = (s, .device) :: devs q := rfl
    rw [this, hf.mem_child hch]
    cases q <;> simp [devs]
  rw [new_cons]
  simp only [hdev]
  simp only [Forest.mem_entries_append, Forest.mem_entries_node, hmem]
  constructor
  · rintro (h₁ | h₁ | ⟨e', h₁ | ⟨q, hq, hpre, hnew, hent⟩, rfl⟩ | h₁)
    · exact .inl (.inl h₁)
    · exact .inl (.inr (.inl h₁))
    · exact .inl (.inr (.inr (.inl ⟨e', h₁, rfl⟩)))
    · exact .inr ⟨q, hpre, ⟨hq, hnew⟩, e', rfl, hent⟩
    · exact .inl (.inr (.inr (.inr h₁)))
  · rintro ((h₁ | h₁ | ⟨e', h₁, rfl⟩ | h₁) | ⟨q, hpre, ⟨hq, hnew⟩, e', rfl, hent⟩)
    · exact .inl h₁
    · exact .inr (.inl h₁)
    · exact .inr (.inr (.inl ⟨e', .inl h₁, rfl⟩))
    · exact .inr (.inr (.inr h₁))
    · exact .inr (.inr (.inl ⟨e', .inr ⟨q, hq, hpre, hnew, hent⟩, rfl⟩))

/-- The device is made: all of the path from here on is new. -/
theorem entries_made {s : Seg} {rest : Path} {f cs cs' : Nodes} (hno : f.child? s = none)
    (hmk : newDevice call (s :: chain) (decide (rest ≠ [])) = .ok (.device, cs))
    (hmem : ∀ e, e ∈ cs'.entries ↔ e ∈ cs.entries ∨ New call (s :: chain) rest cs e)
    (e : List (Seg × NodeKind)) :
    e ∈ (f.append (.node s .device cs' .empty)).entries ↔
      e ∈ f.entries ∨ New call chain (s :: rest) f e := by
  have hnodev : ∀ q, devs (s :: q) ∉ f.entries := fun q =>
    Forest.child?_eq_none_iff.mp hno .device (devs q)
  have hnoval : ∀ q, q ≠ [] → devs q ∉ cs.entries := by
    intro q hq hin
    obtain ⟨n, v, -, heq⟩ := newDevice_value hmk hin
    cases q with
    | nil => exact hq rfl
    | cons x q => simp [devs] at heq
  have hfirst : ∀ e', NodeEntry call (s :: chain) [] ([] ≠ rest) e' ↔
      e' = [] ∨ e' ∈ cs.entries := by
    intro e'
    rw [(newDevice_ok hmk).2.2, decide_eq_true_iff, ne_comm]
    rfl
  rw [new_cons]
  simp only [Forest.mem_entries_append, Forest.mem_entries_node, Forest.entries_empty,
    List.not_mem_nil, or_false, hmem]
  constructor
  · rintro (h₁ | rfl | ⟨e', h₁ | ⟨q, hq, hpre, -, hent⟩, rfl⟩)
    · exact .inl h₁
    · exact .inr ⟨[], List.nil_prefix, hnodev _, [], rfl, (hfirst _).mpr (.inl rfl)⟩
    · exact .inr ⟨[], List.nil_prefix, hnodev _, e', rfl, (hfirst _).mpr (.inr h₁)⟩
    · exact .inr ⟨q, hpre, hnodev _, e', rfl, hent⟩
  · rintro (h₁ | ⟨q, hpre, -, e', rfl, hent⟩)
    · exact .inl h₁
    · by_cases hq : q = []
      · subst hq
        rcases (hfirst e').mp hent with rfl | h₁
        · exact .inr (.inl rfl)
        · exact .inr (.inr ⟨e', .inl h₁, rfl⟩)
      · exact .inr (.inr ⟨e', .inr ⟨q, hq, hpre, hnoval q hq, hent⟩, rfl⟩)

/-- **What going down one path leaves**: what was there, and what the path adds. -/
theorem descend_entries {p : Path} : ∀ {chain : List Seg} {top : Bool} {f f' : Nodes},
    Free top p → f.Distinct → Shaped top f → descend call chain (marked p) f = .ok f' →
    ∀ e, e ∈ f'.entries ↔ e ∈ f.entries ∨ New call chain p f e := by
  induction p with
  | nil =>
    intro chain top f f' _ _ _ h e
    cases h
    refine (or_iff_left ?_).symm
    rintro ⟨q, hq, hpre, -⟩
    exact hq (List.prefix_nil.mp hpre)
  | cons s rest ih =>
    intro chain top f f' hp hf hs h
    rcases Forest.enter_ok h with
      ⟨f₁, f₂, k, cs, cs', rfl, hch, -, hcs, rfl⟩ | ⟨k, cs, cs', hno, hmk, hcs, rfl⟩
    · obtain rfl : k = .device := by
        refine hs.kind_eq hp ?_
        rw [hf.mem_child hch]
        exact ⟨rfl, .inl rfl⟩
      have hbelow := hs.below fun e he => (hf.mem_child hch).mpr ⟨rfl, .inr he⟩
      have hcsd : cs.Distinct := (Forest.distinct_append.mp hf).2.1.2.1
      exact entries_found hf hch (ih hp.tail hcsd hbelow hcs)
    · obtain ⟨rfl, hcsd, -⟩ := newDevice_ok hmk
      exact entries_made hno hmk (ih hp.tail hcsd (newDevice_shaped hmk) hcs)

/-- A path is processed when everything it may ask for is answered. -/
theorem descend_succeeds {p : Path} : ∀ {chain : List Seg} {f : Nodes},
    (∀ q, q ≠ [] → q <+: p → ∃ v, acpiGetAt call (q.reverse ++ chain) adrName = .ok v) →
    (∀ q, q ≠ [] → q <+: p → q ≠ p → ∃ v, acpiGetAt call (q.reverse ++ chain) prtName = .ok v) →
    ∃ f', descend call chain (marked p) f = .ok f' := by
  induction p with
  | nil => intro chain f _ _; exact ⟨f, rfl⟩
  | cons s rest ih =>
    intro chain f ha hp
    refine Forest.enter_succeeds (newDevice_succeeds ?_ fun hmore => ?_) fun cs => ih ?_ ?_
    · exact ha [s] (List.cons_ne_nil _ _) (List.cons_prefix_cons.mpr ⟨rfl, List.nil_prefix⟩)
    · refine hp [s] (List.cons_ne_nil _ _) (List.cons_prefix_cons.mpr ⟨rfl, List.nil_prefix⟩) ?_
      rintro ⟨⟩
      simp at hmore
    · intro q _ hpre
      have := ha (s :: q) (List.cons_ne_nil _ _) (List.cons_prefix_cons.mpr ⟨rfl, hpre⟩)
      simpa using this
    · intro q _ hpre hne
      have := hp (s :: q) (List.cons_ne_nil _ _) (List.cons_prefix_cons.mpr ⟨rfl, hpre⟩)
        (by simpa using hne)
      simpa using this

end OnePath

/-! ## All paths -/

section AllPaths

variable {call : AcpiCall}

theorem devs_injective : Function.Injective devs :=
  List.map_injective_iff.mpr fun _ _ h => (Prod.mk.inj h).1

/-- The way to a value is not the way to a device. -/
theorem devs_ne_value {q q' : Path} {n : Seg} {v : AcpiValue} :
    devs q ≠ devs q' ++ [(n, .value v)] := by
  intro h
  have hmem : (n, NodeKind.value v) ∈ devs q := by
    rw [h]
    exact List.mem_append_right _ (List.mem_singleton.mpr rfl)
  obtain ⟨s, -, hs⟩ := List.mem_map.mp hmem
  cases hs

theorem nodeEntry_devs {q q' : Path} {prt : Prop} : NodeEntry call [] q' prt (devs q) ↔ q = q' := by
  constructor
  · rintro (h | ⟨v, -, h⟩ | ⟨-, v, -, h⟩)
    · exact devs_injective h
    · exact absurd h devs_ne_value
    · exact absurd h devs_ne_value
  · rintro rfl
    exact .inl rfl

/-- What the paths so far have built. -/
structure Built (call : AcpiCall) (done : List Path) (f : Nodes) : Prop where
  distinct : f.Distinct
  entries : ∀ e, e ∈ f.entries ↔ ∃ q, q ≠ [] ∧ (∃ p ∈ done, q <+: p) ∧
    NodeEntry call [] q (FirstGoesOn done q) e

theorem Built.devs_mem {done : List Path} {f : Nodes} (h : Built call done f) {q : Path}
    (hq : q ≠ []) :
    devs q ∈ f.entries ↔ ∃ p ∈ done, q <+: p := by
  rw [h.entries]
  constructor
  · rintro ⟨q', -, hp, hent⟩
    rw [nodeEntry_devs.mp hent]
    exact hp
  · exact fun hp => ⟨q, hq, hp, nodeEntry_devs.mpr rfl⟩

theorem Built.shaped {done : List Path} {f : Nodes} (h : Built call done f)
    (hfree : ∀ p ∈ done, Free true p) : Shaped true f := by
  intro e he
  obtain ⟨q, hq, ⟨p, hp, hpre⟩, hent⟩ := (h.entries e).mp he
  refine ⟨q, fun s hs => hfree p hp s ?_, ?_⟩
  · obtain ⟨r, rfl⟩ := hpre
    show s ∈ (q ++ r).tail
    rw [List.tail_append_of_ne_nil hq]
    exact List.mem_append_left r hs
  rcases hent with rfl | ⟨v, -, rfl⟩ | ⟨-, v, -, rfl⟩
  · exact .inl rfl
  · exact .inr ⟨adrName, v, .inl rfl, fun _ => hq, rfl⟩
  · exact .inr ⟨prtName, v, .inr rfl, fun _ => hq, rfl⟩

theorem firstGoesOn_append {done : List Path} {p q : Path} :
    FirstGoesOn (done ++ [p]) q ↔
      FirstGoesOn done q ∨ (¬ ∃ p' ∈ done, q <+: p') ∧ q <+: p ∧ q ≠ p := by
  induction done with
  | nil => simp [FirstGoesOn]
  | cons p' done ih =>
    rw [List.cons_append, FirstGoesOn, FirstGoesOn]
    split
    · rename_i hpre
      refine (or_iff_left ?_).symm
      rintro ⟨hno, -⟩
      exact hno ⟨p', List.mem_cons_self, hpre⟩
    · rename_i hpre
      rw [ih]
      simp [hpre]

theorem FirstGoesOn.hasBelow {ps : List Path} {q : Path} (h : FirstGoesOn ps q) :
    HasBelow ps q := by
  induction ps with
  | nil => cases h
  | cons p ps ih =>
    rw [FirstGoesOn] at h
    split at h
    · rename_i hpre
      exact ⟨p, List.mem_cons_self, hpre, h⟩
    · obtain ⟨p', hp', hb⟩ := ih h
      exact ⟨p', List.mem_cons_of_mem p hp', hb⟩

/-- The step: one more path. -/
theorem Built.step {done : List Path} {f f' : Nodes} {p : Path} (h : Built call done f)
    (hfree : ∀ p' ∈ done, Free true p') (hp : Free true p)
    (hrun : acpiProcessDev call (render p) f = .ok f') : Built call (done ++ [p]) f' := by
  rw [processDev_render] at hrun
  have hmem := descend_entries hp h.distinct (h.shaped hfree) hrun
  refine ⟨descend_distinct hrun h.distinct, fun e => ?_⟩
  rw [hmem, h.entries]
  constructor
  · rintro (⟨q, hq, ⟨p', hp', hpre⟩, hent⟩ | ⟨q, hq, hpre, hnew, hent⟩)
    · refine ⟨q, hq, ⟨p', List.mem_append_left _ hp', hpre⟩, hent.imp fun hf => ?_⟩
      exact firstGoesOn_append.mpr (.inl hf)
    · rw [h.devs_mem hq] at hnew
      refine ⟨q, hq, ⟨p, by simp, hpre⟩, hent.imp fun hne => ?_⟩
      exact firstGoesOn_append.mpr (.inr ⟨hnew, hpre, hne⟩)
  · rintro ⟨q, hq, ⟨p', hp', hpre⟩, hent⟩
    by_cases hold : ∃ p' ∈ done, q <+: p'
    · refine .inl ⟨q, hq, hold, hent.imp fun hf => ?_⟩
      rcases firstGoesOn_append.mp hf with hf | ⟨hno, -⟩
      · exact hf
      · exact absurd hold hno
    · have hpp : q <+: p := by
        rcases List.mem_append.mp hp' with hin | hin
        · exact absurd ⟨p', hin, hpre⟩ hold
        · exact List.mem_singleton.mp hin ▸ hpre
      refine .inr ⟨q, hq, hpp, (h.devs_mem hq).not.mpr hold, hent.imp fun hf => ?_⟩
      rcases firstGoesOn_append.mp hf with hf | ⟨-, -, hne⟩
      · obtain ⟨p₁, hp₁, hpre₁, -⟩ := hf.hasBelow
        exact absurd ⟨p₁, hp₁, hpre₁⟩ hold
      · exact hne

/-- What was processed was processed path by path. -/
theorem processDevs_cons_ok {path : List Char} {paths : List (List Char)} {f f' : Nodes}
    (h : processDevs call (path :: paths) f = .ok f') :
    ∃ f₁, acpiProcessDev call path f = .ok f₁ ∧ processDevs call paths f₁ = .ok f' := by
  rw [processDevs] at h
  cases hstep : acpiProcessDev call path f with
  | error e =>
    rw [hstep] at h
    cases h
  | ok f₁ =>
    rw [hstep] at h
    exact ⟨f₁, rfl, h⟩

/-- The run: all paths, one after the other. -/
theorem Built.run {ps : List Path} : ∀ {done : List Path} {f f' : Nodes}, Built call done f →
    (∀ p ∈ done ++ ps, Free true p) → processDevs call (ps.map render) f = .ok f' →
    Built call (done ++ ps) f' := by
  induction ps with
  | nil =>
    intro done f f' h _ hrun
    cases hrun
    rwa [List.append_nil]
  | cons p ps ih =>
    intro done f f' h hfree hrun
    obtain ⟨f₁, hstep, hrest⟩ := processDevs_cons_ok hrun
    have hb := h.step (fun p' hp' => hfree p' (List.mem_append_left _ hp'))
      (hfree p (by simp)) hstep
    rw [List.append_cons] at hfree ⊢
    exact ih hb hfree hrest

theorem built_empty : Built call [] .empty :=
  ⟨trivial, fun e => by simp⟩

theorem processDevs_distinct {paths : List (List Char)} : ∀ {f f' : Nodes},
    processDevs call paths f = .ok f' → f.Distinct → f'.Distinct := by
  induction paths with
  | nil =>
    intro f f' h hf
    cases h
    exact hf
  | cons path paths ih =>
    intro f f' h hf
    obtain ⟨f₁, hstep, hrest⟩ := processDevs_cons_ok h
    exact ih hrest (descend_distinct hstep hf)

theorem processDevs_succeeds {ps : List Path}
    (ha : ∀ p ∈ ps, ∀ q, q ≠ [] → q <+: p → Answers call q adrName)
    (hp : ∀ q, q ≠ [] → HasBelow ps q → Answers call q prtName) :
    ∀ f, ∃ f', processDevs call (ps.map render) f = .ok f' := by
  induction ps with
  | nil => exact fun f => ⟨f, rfl⟩
  | cons p ps ih =>
    intro f
    obtain ⟨f₁, h₁⟩ : ∃ f₁, acpiProcessDev call (render p) f = .ok f₁ := by
      rw [processDev_render]
      refine descend_succeeds (fun q hq hpre => ?_) (fun q hq hpre hne => ?_)
      · rw [List.append_nil]
        exact ha p List.mem_cons_self q hq hpre
      · rw [List.append_nil]
        exact hp q hq ⟨p, List.mem_cons_self, hpre, hne⟩
    obtain ⟨f', h'⟩ := ih (fun p' hp' => ha p' (List.mem_cons_of_mem p hp'))
      (fun q hq ⟨p', hp', hb⟩ => hp q hq ⟨p', List.mem_cons_of_mem p hp', hb⟩) f₁
    refine ⟨f', ?_⟩
    rw [List.map_cons, processDevs, h₁]
    exact h'

/-- The way to a value says whose it is, and which. -/
theorem value_inj {q q' : Path} {n n' : Seg} {v v' : AcpiValue}
    (h : devs q ++ [(n, .value v)] = devs q' ++ [(n', .value v')]) : q = q' ∧ n = n' := by
  obtain ⟨hq, hn⟩ := List.append_inj' h rfl
  cases hn
  exact ⟨devs_injective hq, rfl⟩

theorem NamespaceOf.adr_mem {ps : List Path} {t : Nodes} (h : NamespaceOf call ps t) {p q : Path}
    (hp : p ∈ ps) (hq : q ≠ []) (hpre : q <+: p) :
    ∃ v, devs q ++ [(adrName, .value v)] ∈ t.entries := by
  obtain ⟨v, hv⟩ := h.adr p hp q hq hpre
  refine ⟨v, (h.entries _).mpr ⟨q, hq, ⟨p, hp, hpre⟩, .inr (.inl ⟨v, ?_, rfl⟩)⟩⟩
  rwa [List.append_nil]

theorem NamespaceOf.prt_mem {ps : List Path} {t : Nodes} (h : NamespaceOf call ps t) {q : Path}
    (hq : q ≠ []) (hbelow : HasBelow ps q) : ∃ v, devs q ++ [(prtName, .value v)] ∈ t.entries := by
  obtain ⟨v, hv⟩ := h.prt q hq hbelow
  obtain ⟨p, hp, hpre, -⟩ := id hbelow
  refine ⟨v, (h.entries _).mpr ⟨q, hq, ⟨p, hp, hpre⟩, .inr (.inr ⟨hbelow, v, ?_, rfl⟩)⟩⟩
  rwa [List.append_nil]

/-- No two siblings have one name, so a device cannot be called like its parent's values. -/
theorem NamespaceOf.names {ps : List Path} {t : Nodes} (h : NamespaceOf call ps t)
    (ht : t.Distinct) :
    ∀ p ∈ ps, Free true p := by
  intro p hp s hs
  cases p with
  | nil => cases hs
  | cons x p =>
    obtain ⟨a, b, rfl⟩ := List.append_of_mem (show s ∈ p from hs)
    have hpre : x :: a <+: x :: (a ++ s :: b) := ⟨s :: b, by simp⟩
    have hpre' : x :: a ++ [s] <+: x :: (a ++ s :: b) := ⟨b, by simp⟩
    have hdev : devs (x :: a) ++ [(s, .device)] ∈ t.entries := by
      refine (h.entries _).mpr ⟨x :: a ++ [s], by simp, ⟨_, hp, hpre'⟩, .inl ?_⟩
      simp [devs]
    constructor
    · rintro rfl
      obtain ⟨v, hval⟩ := h.adr_mem hp (List.cons_ne_nil x a) hpre
      cases ht.kind_unique hdev hval
    · rintro rfl
      have hbelow : HasBelow ps (x :: a) := ⟨_, hp, hpre, fun heq => by simp at heq⟩
      obtain ⟨v, hval⟩ := h.prt_mem (List.cons_ne_nil x a) hbelow
      cases ht.kind_unique hdev hval

/-- One listing comes out right exactly when it is in order. -/
theorem right_iff {ps : List Path} :
    (∃ t, processDevs call (ps.map render) .empty = .ok t ∧ NamespaceOf call ps t) ↔
      InOrder call ps := by
  constructor
  · rintro ⟨t, hrun, h⟩
    have hnames := h.names (processDevs_distinct hrun trivial)
    have hb : Built call ps t := built_empty.run hnames hrun
    refine ⟨hnames, fun q hq hbelow => ?_, h.adr, h.prt⟩
    -- The `_PRT` that should be there was built, so it was built for a first path that goes on.
    obtain ⟨v, hval⟩ := h.prt_mem hq hbelow
    obtain ⟨q', -, -, hent⟩ := (hb.entries _).mp hval
    rcases hent with heq | ⟨v', -, heq⟩ | ⟨hf, v', -, heq⟩
    · exact absurd heq.symm devs_ne_value
    · exact absurd (value_inj heq).2 (by decide)
    · rw [(value_inj heq).1]
      exact hf
  · intro h
    obtain ⟨t, hrun⟩ := processDevs_succeeds h.adr h.prt .empty
    have hb : Built call ps t := built_empty.run h.names hrun
    refine ⟨t, hrun, hb.distinct.nodup, fun e => ?_, h.adr, h.prt⟩
    rw [hb.entries]
    refine exists_congr fun q => and_congr_right fun hq => and_congr_right fun _ => ?_
    have hiff : FirstGoesOn ps q ↔ HasBelow ps q := ⟨FirstGoesOn.hasBelow, h.first q hq⟩
    unfold NodeEntry
    rw [hiff]

theorem hasBelow_congr {ps qs : List Path} (hset : ∀ p, p ∈ ps ↔ p ∈ qs) :
    HasBelow ps = HasBelow qs := by
  funext q
  simp only [HasBelow, hset]

/-- The namespace is that of the set of paths. -/
theorem NamespaceOf.congr {ps qs : List Path} {t t' : Nodes} (hset : ∀ p, p ∈ ps ↔ p ∈ qs)
    (h : NamespaceOf call ps t) (hsame : Forest.Same t t') (ht' : t'.Distinct) :
    NamespaceOf call qs t' := by
  have hbelow := hasBelow_congr hset
  refine ⟨ht'.nodup, fun e => ?_, fun p hp => h.adr p ((hset p).mpr hp), hbelow ▸ h.prt⟩
  rw [← hsame.mem_entries, h.entries, hbelow]
  simp only [hset]

end AllPaths

/-- **Two orders of the devices give the same namespace exactly when both are in order.** -/
theorem ordersAgree_iff (call : AcpiCall) (ps qs : List Path) (hset : ∀ p, p ∈ ps ↔ p ∈ qs) :
    OrdersAgree call ps qs ↔ InOrder call ps ∧ InOrder call qs := by
  constructor
  · rintro ⟨t, t', hrun, hrun', hsame, h⟩
    have h' := h.congr hset hsame (processDevs_distinct hrun' trivial)
    exact ⟨right_iff.mp ⟨t, hrun, h⟩, right_iff.mp ⟨t', hrun', h'⟩⟩
  · rintro ⟨hps, hqs⟩
    obtain ⟨t, hrun, h⟩ := right_iff.mpr hps
    obtain ⟨t', hrun', h'⟩ := right_iff.mpr hqs
    have ht := processDevs_distinct hrun trivial
    have ht' := processDevs_distinct hrun' trivial
    refine ⟨t, t', hrun, hrun', ht.same ht' fun e => ?_, h⟩
    rw [h.entries, h'.entries, hasBelow_congr hset]
    simp only [hset]

/-! ## A bridge and what is behind it -/

def pci0 : Seg := ⟨"PCI0".toList, rfl⟩
def lpcb : Seg := ⟨"LPCB".toList, rfl⟩
def sata : Seg := ⟨"SATA".toList, rfl⟩

/-- A firmware whose every value is 0. -/
def zeroCall : AcpiCall := fun _ => some "0x0\n".toList

theorem answers_zeroCall {q : Path} (n : Seg) (hq : q.length ≤ 818) : Answers zeroCall q n := by
  refine ⟨.integer 0, ?_⟩
  unfold acpiGetAt
  rw [if_neg (by rw [List.length_reverse]; unfold pathMax; omega)]
  rfl

/-- Paths of two names, of which the first one is always the bridge's. -/
theorem inOrder_behind_bridge {s s' : Seg} (hs : s ≠ adrName ∧ s ≠ prtName)
    (hs' : s' ≠ adrName ∧ s' ≠ prtName) : InOrder zeroCall [[pci0, s], [pci0, s']] := by
  have hlen : ∀ p ∈ [[pci0, s], [pci0, s']], ∀ q, q <+: p → q.length ≤ 818 := by
    intro p hp q hpre
    have hle := hpre.length_le
    simp only [List.mem_cons, List.not_mem_nil, or_false] at hp
    rcases hp with rfl | rfl <;> simp only [List.length_cons, List.length_nil] at hle <;> omega
  refine ⟨fun p hp x hx => ?_, fun q hq hb => ?_, fun p hp q _ hpre => ?_, fun q _ hb => ?_⟩
  · simp only [List.mem_cons, List.not_mem_nil, or_false] at hp
    rcases hp with rfl | rfl
    · exact List.mem_singleton.mp hx ▸ hs
    · exact List.mem_singleton.mp hx ▸ hs'
  · -- A device with something below it is the bridge, and the first path goes on below that.
    obtain ⟨p, hp, hpre, hne⟩ := hb
    simp only [List.mem_cons, List.not_mem_nil, or_false] at hp
    have hone : ∀ y, q <+: [pci0, y] → q ≠ [pci0, y] → q = [pci0] := by
      intro y hpre hne
      obtain rfl | ⟨t, rfl, ht⟩ := List.prefix_cons_iff.mp hpre
      · exact absurd rfl hq
      · obtain rfl | ⟨u, rfl, hu⟩ := List.prefix_cons_iff.mp ht
        · rfl
        · exact absurd (by rw [List.prefix_nil.mp hu]) hne
    have hq1 : q = [pci0] := by
      rcases hp with rfl | rfl
      · exact hone s hpre hne
      · exact hone s' hpre hne
    subst hq1
    simp [FirstGoesOn]
  · exact answers_zeroCall adrName (hlen p hp q hpre)
  · obtain ⟨p, hp, hpre, -⟩ := hb
    exact answers_zeroCall prtName (hlen p hp q hpre)

/-- Two devices behind a bridge, in both orders. -/
theorem ordersAgree_iff_siblings :
    (∀ p, p ∈ [[pci0, lpcb], [pci0, sata]] ↔ p ∈ [[pci0, sata], [pci0, lpcb]]) ∧
    OrdersAgree zeroCall [[pci0, lpcb], [pci0, sata]] [[pci0, sata], [pci0, lpcb]] := by
  have hset : ∀ p, p ∈ [[pci0, lpcb], [pci0, sata]] ↔ p ∈ [[pci0, sata], [pci0, lpcb]] := by
    intro p
    simp only [List.mem_cons, List.not_mem_nil, or_false]
    exact or_comm
  refine ⟨hset, (ordersAgree_iff zeroCall _ _ hset).mpr ⟨?_, ?_⟩⟩
  · exact inOrder_behind_bridge (by decide) (by decide)
  · exact inOrder_behind_bridge (by decide) (by decide)

/-- A bridge and a device behind it: when the bridge's own path comes first, the bridge never
    gets its `_PRT`. -/
theorem bridge_first_not_agree :
    (∃ t t', processDevs zeroCall ([[pci0], [pci0, lpcb]].map render) .empty = .ok t ∧
      processDevs zeroCall ([[pci0, lpcb], [pci0]].map render) .empty = .ok t' ∧
      [(pci0, .device), (prtName, .value (.integer 0))] ∉ t.entries ∧
      [(pci0, .device), (prtName, .value (.integer 0))] ∈ t'.entries) ∧
    ¬ OrdersAgree zeroCall [[pci0], [pci0, lpcb]] [[pci0, lpcb], [pci0]] := by
  refine ⟨⟨_, _, rfl, rfl, by decide, by decide⟩, ?_⟩
  rintro ⟨t, t', hrun, -, -, h⟩
  have hin := right_iff.mp ⟨t, hrun, h⟩
  have hb : HasBelow [[pci0], [pci0, lpcb]] [pci0] :=
    ⟨[pci0, lpcb], by simp, by decide, by decide⟩
  have hfirst := hin.first [pci0] (List.cons_ne_nil _ _) hb
  simp [FirstGoesOn] at hfirst

end Umka.Proof.Acpi
