import Umka.Acpi.Path
import Umka.Proof.Acpi.DevicesDat

/-!
# Cutting a path and building it again

`acpi_process_dev` and `acpi_get_at` are inverse: the rounds over `\S1.S2...Sk` are its names in
order, and the paths asked for at `Sj` are `\S1...Sj._ADR` and, below the last name,
`\S1...Sj._PRT`. `pathsRight_iff` says for which paths, counted with every write that leaves its
buffer: those with room for the longest path asked for and its NUL.

One round of either loop moves its pointer by five characters and leaves everything on the far
side of it alone, so both inductions carry what the buffer holds from the pointer on.

The model of the tree has no buffers; `acpiProcessDev_follows` says that it takes the names from the
rounds and the values from the answers to the paths that are asked for in them.
-/

set_option autoImplicit false

namespace Umka.Proof.Acpi

open Lib (CharBuf nul holds_append holds_cons write_fits length_cstr_le)
open Umka.Acpi

/-! ## The texts -/

/-- `.S1.S2...Sk`. -/
def dots (p : Path) : List Char := p.flatMap fun s => '.' :: s.chars

theorem dots_singleton (s : Seg) : dots [s] = '.' :: s.chars := by
  simp only [dots, List.flatMap_cons, List.flatMap_nil, List.append_nil]

theorem dots_eq {p : Path} (hp : p ≠ []) : dots p = '.' :: dotted p := by
  induction p with
  | nil => exact absurd rfl hp
  | cons s rest ih =>
    cases rest with
    | nil => rw [dots_singleton, dotted]
    | cons s' rest =>
      show ('.' :: s.chars) ++ dots (s' :: rest) = '.' :: (s.chars ++ '.' :: dotted (s' :: rest))
      rw [ih (List.cons_ne_nil _ _), List.cons_append]

theorem dots_append (p q : Path) : dots (p ++ q) = dots p ++ dots q := List.flatMap_append

theorem length_dots (p : Path) : (dots p).length = 5 * p.length := by
  induction p with
  | nil => rfl
  | cons s rest ih =>
    have hcons : dots (s :: rest) = ('.' :: s.chars) ++ dots rest := rfl
    rw [hcons, List.length_append, ih, List.length_cons, List.length_cons, s.size_eq]
    omega

theorem length_render {p : Path} (hp : p ≠ []) : (render p).length = 5 * p.length := by
  rw [← length_dots, dots_eq hp, render, List.length_cons, List.length_cons]

theorem rebuildPath_eq (chain : List Seg) (name : Seg) :
    rebuildPath chain name = render (chain.reverse ++ [name]) := by
  have hfold : ∀ (chain : List Seg) (path : List Char),
      chain.foldl (fun path seg => '.' :: (seg.chars ++ path)) path
        = dots chain.reverse ++ path := by
    intro chain
    induction chain with
    | nil => intro path; rfl
    | cons seg chain ih =>
      intro path
      rw [List.foldl_cons, ih, List.reverse_cons, dots_append, dots_singleton, List.append_assoc,
        List.cons_append]
  rw [rebuildPath, hfold, ← dots_singleton, ← dots_append, dots_eq (by simp),
    List.tail_cons, render]

/-- No name of a path has a NUL in it. -/
def IsText (p : Path) : Prop := ∀ s ∈ p, nul ∉ s.chars

theorem isText_iff (p : Path) : IsText p ↔ nul ∉ render p := by
  have hdots : nul ∉ dots p ↔ IsText p := by
    simp only [dots, List.mem_flatMap, List.mem_cons, not_exists, not_and, not_or, IsText]
    exact ⟨fun h s hs => (h s hs).2, fun h s hs => ⟨by decide, h s hs⟩⟩
  rw [← hdots, render]
  by_cases hp : p = []
  · subst hp
    decide
  · rw [dots_eq hp]
    simp only [List.mem_cons, not_or]
    exact and_congr_left' ⟨fun _ => by decide, fun _ => by decide⟩

/-! ## Building -/

section Build

variable {path : CharBuf} {cur : Nat} {text : List Char}

/-- One round of the loop of `acpi_get_at` puts a name in front of what is there. -/
theorem climb_cons (node : Seg) (parents : List Seg) (h : path.Holds cur text)
    (hcur : 5 ≤ cur) (hmax : cur ≤ pathMax) :
    ∃ path', climb (node :: parents) path cur = climb parents path' (cur - 5) ∧
      path'.Holds (cur - 5) (('.' :: node.chars) ++ text) := by
  have hsize := node.size_eq
  obtain ⟨dotted, hdotted, hdot, hsame⟩ := write_fits path pathMax (cur - 5) ['.']
    (by rw [List.length_singleton]; omega)
  obtain ⟨named, hnamed, hname, hsame'⟩ := write_fits dotted pathMax (cur - 5 + 1) node.chars
    (by omega)
  rw [List.length_singleton] at hsame
  refine ⟨named, ?_, ?_⟩
  · rw [climb, if_neg (by omega), hdotted, Option.bind_eq_bind, Option.bind_some, hnamed,
      Option.bind_some]
  · rw [List.cons_append, holds_cons, holds_append]
    refine ⟨?_, hname, ?_⟩
    · rw [hsame' _ (by omega)]
      exact (holds_cons.mp hdot).1
    · rw [show cur - 5 + 1 + node.chars.length = cur by omega]
      refine h.congr fun i hi _ => ?_
      rw [hsame' i (by omega), hsame i (by omega)]

theorem climb_fits (chain : List Seg) : ∀ {path : CharBuf} {cur : Nat} {text : List Char},
    path.Holds cur text → 5 * chain.length ≤ cur → cur ≤ pathMax →
    ∃ path', climb chain path cur = some (path', cur - 5 * chain.length) ∧
      path'.Holds (cur - 5 * chain.length) (dots chain.reverse ++ text) := by
  induction chain with
  | nil =>
    intro path cur text h _ _
    exact ⟨path, rfl, h⟩
  | cons node parents ih =>
    intro path cur text h hcur hmax
    rw [List.length_cons] at hcur ⊢
    obtain ⟨path₁, hstep, h₁⟩ := climb_cons node parents h (by omega) hmax
    obtain ⟨path', hrun, h'⟩ := ih h₁ (by omega) (by omega)
    rw [show cur - 5 - 5 * parents.length = cur - 5 * (parents.length + 1) by omega] at hrun h'
    refine ⟨path', hstep.trans hrun, ?_⟩
    rw [List.reverse_cons, dots_append, dots_singleton, List.append_assoc]
    exact h'

theorem climb_leaves (chain : List Seg) : ∀ {path : CharBuf} {cur : Nat},
    cur < 5 * chain.length → climb chain path cur = none := by
  induction chain with
  | nil =>
    intro path cur hcur
    exact absurd hcur (Nat.not_lt_zero _)
  | cons node parents ih =>
    intro path cur hcur
    rw [List.length_cons] at hcur
    rw [climb]
    split
    · rfl
    · simp only [Option.bind_eq_bind, Option.bind_eq_none_iff]
      intro path₁ _ path₂ _
      exact ih (by omega)

/-- The buffer when the loop starts. -/
theorem startPath_holds (stack : CharBuf) (name : Seg) :
    ∃ path, startPath stack name = some path ∧
      path.Holds (pathMax - 6) (dots [name] ++ [nul]) := by
  have hsize := name.size_eq
  have hmax : pathMax = 4096 := rfl
  obtain ⟨ended, hended, hnul, -⟩ := write_fits stack pathMax (pathMax - 1) [nul]
    (by rw [List.length_singleton]; omega)
  obtain ⟨named, hnamed, hname, hsame⟩ := write_fits ended pathMax (pathMax - 5) name.chars
    (by omega)
  obtain ⟨path, hpath, hdot, hsame'⟩ := write_fits named pathMax (pathMax - 6) ['.']
    (by rw [List.length_singleton]; omega)
  rw [List.length_singleton] at hsame'
  refine ⟨path, ?_, ?_⟩
  · simp only [startPath, hended, hnamed, hpath, Option.bind_eq_bind, Option.bind_some]
  · rw [dots_singleton, List.cons_append, holds_cons, holds_append]
    refine ⟨(holds_cons.mp hdot).1, ?_, ?_⟩
    · exact hname.congr fun i hi _ => hsame' i (by omega)
    · rw [show pathMax - 6 + 1 + name.chars.length = pathMax - 1 by omega]
      refine hnul.congr fun i hi _ => ?_
      rw [hsame' i (by omega), hsame i (by omega)]

/-- The last write of `acpi_get_at` puts the backslash over the first dot. -/
theorem backslash_holds {p : Path} (hp : p ≠ []) (h : path.Holds cur (dots p ++ [nul]))
    (hcur : cur < pathMax) :
    ∃ path', path.write pathMax cur ['\\'] = some path' ∧
      path'.Holds cur (render p ++ [nul]) := by
  obtain ⟨path', hpath', hslash, hsame⟩ := write_fits path pathMax cur ['\\']
    (by rw [List.length_singleton]; omega)
  rw [List.length_singleton] at hsame
  rw [dots_eq hp, List.cons_append, holds_cons] at h
  refine ⟨path', hpath', ?_⟩
  rw [render, List.cons_append, holds_cons]
  exact ⟨(holds_cons.mp hslash).1, h.2.congr fun i hi _ => hsame i (by omega)⟩

end Build

/-- The string that `acpi_get_at` builds is the path of the chain and the name, or a write leaves
    its buffer. -/
theorem acpiGetAtPath_eq (stack : CharBuf) {chain : List Seg} {name : Seg}
    (htext : IsText (chain.reverse ++ [name])) :
    acpiGetAtPath stack chain name =
      if pathMax - 6 < 5 * chain.length then none else some (rebuildPath chain name) := by
  have hmax : pathMax = 4096 := rfl
  obtain ⟨path, hstart, hpath⟩ := startPath_holds stack name
  rw [acpiGetAtPath, hstart, Option.bind_eq_bind, Option.bind_some]
  split
  next hroom =>
    rw [climb_leaves chain hroom]
    rfl
  next hroom =>
    obtain ⟨built, hbuilt, hholds⟩ := climb_fits chain hpath (not_lt.mp hroom) (by omega)
    rw [← List.append_assoc, ← dots_append] at hholds
    obtain ⟨done, hdone, hrender⟩ := backslash_holds (by simp) hholds (by omega)
    have hlen := length_render (p := chain.reverse ++ [name]) (by simp)
    rw [List.length_append, List.length_reverse, List.length_singleton] at hlen
    rw [hbuilt, Option.bind_eq_bind, Option.bind_some]
    simp only [hdone, Option.bind_some]
    rw [hrender.cstr ((isText_iff _).mp htext) (by omega), rebuildPath_eq]

/-- What `acpi_get_at` returns for the string that it has built. -/
def answerTo (call : AcpiCall) : Option (List Char) → Except Stop AcpiValue
  | none => .error .crashed
  | some path =>
    match acpiGet call path with
    | .error e => .error e
    | .ok none => .error .crashed
    | .ok (some v) => .ok v

/-- The model without the buffer asks the firmware for what `acpi_get_at` writes there. -/
theorem acpiGetAt_eq (call : AcpiCall) (stack : CharBuf) {chain : List Seg} {name : Seg}
    (htext : IsText (chain.reverse ++ [name])) :
    acpiGetAt call chain name = answerTo call (acpiGetAtPath stack chain name) := by
  rw [acpiGetAtPath_eq stack htext, acpiGetAt]
  split <;> rfl

theorem length_acpiGetAtPath_le {stack : CharBuf} {chain : List Seg} {name : Seg} {path : List Char}
    (h : acpiGetAtPath stack chain name = some path) : path.length ≤ pathMax := by
  simp only [acpiGetAtPath, Option.bind_eq_bind, Option.bind_eq_some_iff, Option.some.injEq] at h
  obtain ⟨_, _, _, _, _, _, rfl⟩ := h
  exact length_cstr_le

/-! ## Cutting -/

theorem segAt_of_holds {path : CharBuf} {name : Nat} {s : Seg} (h : path.Holds name s.chars) :
    segAt path name = s := by
  obtain ⟨cs, hcs⟩ := s
  obtain ⟨a, b, c, d, rfl⟩ := List.length_eq_four.mp hcs
  simp only [holds_cons] at h
  obtain ⟨ha, hb, hc, hd, -⟩ := h
  simp only [segAt, ha, hb, hc, hd]

/-- Behind the first name there is one character to cut at: a dot, or the NUL at the end. -/
theorem dotted_cons_nul (s : Seg) (rest : Path) :
    ∃ sep, dotted (s :: rest) ++ [nul] =
      s.chars ++ sep :: (if rest = [] then [] else dotted rest ++ [nul]) := by
  cases rest with
  | nil => exact ⟨nul, rfl⟩
  | cons s' rest =>
    refine ⟨'.', ?_⟩
    rw [dotted, if_neg (List.cons_ne_nil _ _), List.append_assoc, List.cons_append]
    exact List.cons_ne_nil _ _

/-- What the round at a name should find. -/
def roundAt (stack : CharBuf) (chain : List Seg) (s : Seg) (more : Bool) : Visit :=
  let adr := acpiGetAtPath stack (s :: chain) adrName
  let prt := acpiGetAtPath stack (s :: chain) prtName
  ⟨s, s.chars, if more then [adr, prt] else [adr]⟩

/-- The rounds over `rest` below `chain`. -/
def roundsOver (stack : CharBuf) : List Seg → Path → List Visit
  | _, [] => []
  | chain, s :: rest => roundAt stack chain s (rest ≠ []) :: roundsOver stack (s :: chain) rest

section Cut

variable (stack : CharBuf)

/-- One round of the loop cuts off the first name of what is left, and leaves the rest. -/
theorem visitFrom_cons (dirNameLen fuel : Nat) (chain : List Seg) {path : CharBuf} {name : Nat}
    {s : Seg} {rest : Path} (h : path.Holds name (dotted (s :: rest) ++ [nul]))
    (hs : nul ∉ s.chars) (hlt : name < dirNameLen) (hfits : name + 4 < pathMax) :
    ∃ path', visitFrom stack dirNameLen (fuel + 1) path chain name =
        (visitFrom stack dirNameLen fuel path' (s :: chain) (name + 5)).map
          (roundAt stack chain s (name + 5 < dirNameLen) :: ·) ∧
      (rest ≠ [] → path'.Holds (name + 5) (dotted rest ++ [nul])) := by
  have hsize := s.size_eq
  obtain ⟨cut, hcut, hnul, hsame⟩ := write_fits path pathMax (name + 4) [nul]
    (by rw [List.length_singleton]; omega)
  rw [List.length_singleton] at hsame
  obtain ⟨sep, hsep⟩ := dotted_cons_nul s rest
  rw [hsep, holds_append, holds_cons, hsize] at h
  have hname : cut.Holds name s.chars := h.1.congr fun i _ hi => hsame i (by omega)
  have hstring : cut.cstr pathMax name = s.chars := by
    refine CharBuf.Holds.cstr ?_ hs (by omega)
    rw [holds_append, hsize]
    exact ⟨hname, hnul⟩
  refine ⟨cut, ?_, fun hrest => ?_⟩
  · simp only [visitFrom, if_pos hlt, hcut, Option.bind_eq_bind, Option.bind_some,
      segAt_of_holds hname, hstring, roundAt, decide_eq_true_eq]
    cases visitFrom stack dirNameLen fuel cut (s :: chain) (name + 5) <;> rfl
  · have hbehind := h.2.2
    rw [if_neg hrest] at hbehind
    exact hbehind.congr fun i hi _ => hsame i (by omega)

/-- The loop visits the names that are left, in order. -/
theorem visitFrom_eq {n : Nat} (hn : 5 * n < pathMax) (rest : Path) :
    ∀ (chain : List Seg) {path : CharBuf} (fuel : Nat), rest.length ≤ fuel → IsText rest →
    (rest ≠ [] → path.Holds (5 * chain.length + 1) (dotted rest ++ [nul])) →
    chain.length + rest.length = n →
    visitFrom stack (5 * n - 1) fuel path chain (5 * chain.length + 1) =
      some (roundsOver stack chain rest) := by
  induction rest with
  | nil =>
    intro chain path fuel _ _ _ hlen
    rw [List.length_nil] at hlen
    cases fuel with
    | zero => rfl
    | succ fuel => exact if_neg (by omega)
  | cons s rest ih =>
    intro chain path fuel hfuel htext hholds hlen
    rw [List.length_cons] at hlen hfuel
    obtain ⟨fuel, rfl⟩ : ∃ m, fuel = m + 1 := ⟨fuel - 1, by omega⟩
    obtain ⟨path', hstep, hrest⟩ := visitFrom_cons stack (5 * n - 1) fuel chain
      (hholds (List.cons_ne_nil _ _)) (htext s List.mem_cons_self) (by omega) (by omega)
    have hmore : decide (5 * chain.length + 1 + 5 < 5 * n - 1) = decide (rest ≠ []) := by
      refine decide_eq_decide.mpr ?_
      rw [← List.length_pos_iff]
      omega
    have hnext : 5 * chain.length + 1 + 5 = 5 * (s :: chain).length + 1 := by
      rw [List.length_cons]
      omega
    rw [hnext] at hrest
    have hrun := ih (s :: chain) fuel (by omega)
      (fun s' hs' => htext s' (List.mem_cons_of_mem s hs')) hrest (by rw [List.length_cons]; omega)
    rw [hstep, hmore, hnext, hrun, Option.map_some, roundsOver]

end Cut

/-- What `main` reads is the path, when the file is no longer than the buffer. -/
theorem readPath_holds (acpiPath : CharBuf) (line : List Char) (hfits : line.length < pathMax) :
    ∃ path, readPath acpiPath (line ++ ['\n']) = some path ∧ path.Holds 0 (line ++ [nul]) := by
  have htake : (line ++ ['\n']).take pathMax = line ++ ['\n'] :=
    List.take_of_length_le (by rw [List.length_append, List.length_singleton]; omega)
  have hlen : (line ++ ['\n']).length - 1 = line.length := by
    rw [List.length_append, List.length_singleton, Nat.add_sub_cancel]
  obtain ⟨read, hread, hholds, -⟩ := write_fits acpiPath pathMax 0 (line ++ ['\n'])
    (by rw [List.length_append, List.length_singleton]; omega)
  obtain ⟨path, hpath, hnul, hsame⟩ := write_fits read pathMax line.length [nul]
    (by rw [List.length_singleton]; omega)
  refine ⟨path, ?_, ?_⟩
  · rw [readPath, htake, hread, Option.bind_eq_bind, Option.bind_some, if_neg (by simp),
      hlen, hpath]
  · rw [holds_append, Nat.zero_add]
    exact ⟨(holds_append.mp hholds).1.congr fun i _ hi => hsame i (by omega), hnul⟩

/-- The rounds for a device whose path fits in `acpi_path`. -/
theorem deviceVisits_eq (stack acpiPath : CharBuf) {p : Path} (hp : p ≠ []) (htext : IsText p)
    (hfits : 5 * p.length < pathMax) :
    deviceVisits stack acpiPath (render p ++ ['\n']) = some (roundsOver stack [] p) := by
  have hlen := length_render hp
  obtain ⟨path, hread, hholds⟩ := readPath_holds acpiPath (render p) (by omega)
  have hstring : path.cstr pathMax 0 = render p :=
    hholds.cstr ((isText_iff p).mp htext) (by omega)
  have hnames : path.Holds 1 (dotted p ++ [nul]) := by
    rw [render, List.cons_append, holds_cons] at hholds
    exact hholds.2
  have hpos := List.length_pos_iff.mpr hp
  rw [deviceVisits, hread, Option.bind_eq_bind, Option.bind_some, acpiProcessDevVisits,
    hstring, hlen]
  exact visitFrom_eq stack hfits p [] _ (by omega) htext (fun _ => hnames) (Nat.zero_add _)

/-- No path that is asked for is longer than the buffer. -/
theorem visitFrom_asked (stack : CharBuf) (dirNameLen fuel : Nat) :
    ∀ {path : CharBuf} {chain : List Seg} {name : Nat} {visits : List Visit},
    visitFrom stack dirNameLen fuel path chain name = some visits →
    ∀ v ∈ visits, ∀ asked, some asked ∈ v.asked → asked.length ≤ pathMax := by
  induction fuel with
  | zero =>
    intro path chain name visits h v hv
    obtain rfl : [] = visits := Option.some.inj h
    exact absurd hv List.not_mem_nil
  | succ fuel ih =>
    intro path chain name visits h v hv asked hasked
    rw [visitFrom] at h
    split at h
    · simp only [Option.bind_eq_bind, Option.bind_eq_some_iff, Option.some.injEq] at h
      obtain ⟨cut, -, later, hlater, rfl⟩ := h
      rcases List.mem_cons.mp hv with rfl | hv
      · split at hasked <;> simp only [List.mem_cons, List.not_mem_nil, or_false] at hasked
        · rcases hasked with hasked | hasked <;> exact length_acpiGetAtPath_le hasked.symm
        · exact length_acpiGetAtPath_le hasked.symm
      · exact ih hlater v hv asked hasked
    · obtain rfl : [] = visits := Option.some.inj h
      exact absurd hv List.not_mem_nil

/-! ## The tree -/

/-- The children that a new device gets in a round. -/
def newIn (call : AcpiCall) (v : Visit) : Except Stop (NodeKind × Nodes) :=
  match v.asked with
  | [adr, prt] => do
    let adr ← answerTo call adr
    let prt ← answerTo call prt
    pure (.device, .node adrName (.value adr) .empty (.node prtName (.value prt) .empty .empty))
  | [adr] => do
    let adr ← answerTo call adr
    pure (.device, .node adrName (.value adr) .empty .empty)
  | _ => pure (.device, .empty)

/-- Down the tree along the rounds; a node that is not there is made. -/
def follow (call : AcpiCall) : List Visit → Nodes → Except Stop Nodes
  | [], f => .ok f
  | v :: rest, f => f.enter v.name (newIn call v) (follow call rest)

theorem newDevice_eq (call : AcpiCall) (stack : CharBuf) {chain : List Seg} {s : Seg}
    (htext : IsText (s :: chain)) (more : Bool) :
    newDevice call (s :: chain) more = newIn call (roundAt stack chain s more) := by
  have hname : ∀ name, nul ∉ name.chars → IsText ((s :: chain).reverse ++ [name]) := by
    intro name hname x hx
    rcases List.mem_append.mp hx with hx | hx
    · exact htext x (List.mem_reverse.mp hx)
    · rwa [List.mem_singleton.mp hx]
  rw [newDevice, acpiGetAt_eq call stack (hname adrName (by decide)),
    acpiGetAt_eq call stack (hname prtName (by decide))]
  cases more <;> rfl

theorem descend_eq (call : AcpiCall) (stack : CharBuf) (rest : Path) : ∀ {chain : List Seg},
    IsText chain → IsText rest → ∀ f,
    descend call chain (marked rest) f = follow call (roundsOver stack chain rest) f := by
  induction rest with
  | nil => exact fun _ _ _ => rfl
  | cons s rest ih =>
    intro chain hchain hrest f
    have hcons : IsText (s :: chain) := by
      intro x hx
      rcases List.mem_cons.mp hx with rfl | hx
      · exact hrest x List.mem_cons_self
      · exact hchain x hx
    have hbelow := funext (ih hcons fun x hx => hrest x (List.mem_cons_of_mem s hx))
    rw [marked, descend, newDevice_eq call stack hcons, hbelow]
    rfl

/-- **The tree follows the buffers**: the nodes that are entered or made for a device are those of
    the rounds over its path, and the values of a new one are the firmware's answers to the paths
    that are built in that round. -/
theorem acpiProcessDev_follows (call : AcpiCall) (stack acpiPath : CharBuf) (root : Nodes)
    {p : Path} (hp : p ≠ []) (hnul : nul ∉ render p) (hfits : (render p).length < pathMax) :
    ∃ visits, deviceVisits stack acpiPath (render p ++ ['\n']) = some visits ∧
      acpiProcessDev call (render p) root = follow call visits root := by
  have htext := (isText_iff p).mpr hnul
  rw [length_render hp] at hfits
  refine ⟨_, deviceVisits_eq stack acpiPath hp htext hfits, ?_⟩
  rw [processDev_render]
  exact descend_eq call stack p (fun x hx => absurd hx List.not_mem_nil) htext root

theorem acpiProcessDev_follows_pci0 : ∃ visits,
    deviceVisits (fun _ => nul) (fun _ => nul) "\\_SB_.PCI0\n".toList = some visits ∧
      acpiProcessDev (fun _ => some "0x1f\n".toList) "\\_SB_.PCI0".toList .empty =
        follow (fun _ => some "0x1f\n".toList) visits .empty :=
  acpiProcessDev_follows (fun _ => some "0x1f\n".toList) (fun _ => nul) (fun _ => nul) .empty
    (p := [⟨"_SB_".toList, rfl⟩, ⟨"PCI0".toList, rfl⟩]) (by simp) (by decide) (by decide)

/-! ## Both together -/

/-- The round at the `j`-th name of a path. -/
def rightVisit (p : Path) (j : Nat) (s : Seg) : Visit where
  name := s
  text := s.chars
  asked := some (render (p.take (j + 1) ++ [adrName])) ::
    if j + 1 < p.length then [some (render (p.take (j + 1) ++ [prtName]))] else []

/-- The names are visited in order, and the paths asked for are those of the nodes. -/
def PathsRight (p : Path) : Prop :=
  ∀ stack acpiPath : CharBuf,
    deviceVisits stack acpiPath (render p ++ ['\n']) = some (p.mapIdx (rightVisit p))

theorem roundsOver_eq (stack : CharBuf) {p : Path} (htext : IsText p)
    (hfits : 5 * p.length ≤ pathMax - 6) (rest : Path) : ∀ {chain : List Seg},
    chain.reverse ++ rest = p →
    roundsOver stack chain rest = rest.mapIdx fun j => rightVisit p (chain.length + j) := by
  induction rest with
  | nil =>
    intro chain _
    rfl
  | cons s rest ih =>
    intro chain hp
    have hchain : (s :: chain).reverse ++ rest = p := by
      rw [List.reverse_cons, List.append_assoc]
      exact hp
    have htake : p.take (chain.length + 1) = (s :: chain).reverse := by
      rw [← hchain, ← List.length_cons (a := s), ← List.length_reverse, List.take_left]
    have hlen : p.length = chain.length + 1 + rest.length := by
      rw [← hchain, List.length_append, List.length_reverse, List.length_cons]
    have hasked : ∀ name, nul ∉ name.chars →
        acpiGetAtPath stack (s :: chain) name
          = some (render (p.take (chain.length + 1) ++ [name])) := by
      intro name hname
      have hchars : IsText ((s :: chain).reverse ++ [name]) := by
        intro x hx
        rcases List.mem_append.mp hx with hx | hx
        · exact htext x (hchain ▸ List.mem_append_left rest hx)
        · rwa [List.mem_singleton.mp hx]
      rw [acpiGetAtPath_eq stack hchars, if_neg (by rw [List.length_cons]; omega),
        rebuildPath_eq, htake]
    have hround : roundAt stack chain s (rest ≠ []) = rightVisit p (chain.length + 0) s := by
      rw [roundAt, hasked adrName (by decide), hasked prtName (by decide), rightVisit, Nat.add_zero]
      cases rest with
      | nil => rw [if_neg (show ¬ chain.length + 1 < p.length by simp [hlen])]; rfl
      | cons s' rest => rw [if_pos (show chain.length + 1 < p.length by simp [hlen])]; rfl
    rw [roundsOver, ih hchain, List.mapIdx_cons, hround]
    simp only [List.length_cons, Nat.add_assoc, Nat.add_comm 1]

theorem pathsRight_of_fits {p : Path} (hp : p ≠ []) (htext : IsText p)
    (hfits : 5 * p.length ≤ pathMax - 6) : PathsRight p := by
  intro stack acpiPath
  have hmax : pathMax = 4096 := rfl
  rw [deviceVisits_eq stack acpiPath hp htext (by omega), roundsOver_eq stack htext hfits p rfl]
  simp only [List.length_nil, Nat.zero_add]

/-- The last name's `_ADR` is the longest path asked for. -/
theorem fits_of_pathsRight {p : Path} (hp : p ≠ []) (h : PathsRight p) :
    (render (p ++ [adrName])).length ≤ pathMax := by
  have hpos := List.length_pos_iff.mpr hp
  have hlast : p.length - 1 < p.length := by omega
  have hmem : rightVisit p (p.length - 1) p[p.length - 1] ∈ p.mapIdx (rightVisit p) :=
    List.mem_mapIdx.mpr ⟨p.length - 1, hlast, rfl⟩
  have hrun := h (fun _ => nul) (fun _ => nul)
  simp only [deviceVisits, acpiProcessDevVisits, Option.bind_eq_bind,
    Option.bind_eq_some_iff] at hrun
  obtain ⟨path, -, hvisits⟩ := hrun
  have hle := visitFrom_asked _ _ _ hvisits _ hmem _ List.mem_cons_self
  rwa [Nat.sub_add_cancel hpos, List.take_length] at hle

/-- Cutting and building are inverse, inside their buffers, exactly for the paths with room for
    the last name's `_ADR` and a NUL. -/
theorem pathsRight_iff {p : Path} (hp : p ≠ []) (hnul : nul ∉ render p) :
    PathsRight p ↔ (render (p ++ [adrName])).length + 1 ≤ pathMax := by
  have hmax : pathMax = 4096 := rfl
  have hlen : (render (p ++ [adrName])).length = 5 * (p.length + 1) := by
    rw [length_render (by simp), List.length_append, List.length_singleton]
  constructor
  · intro h
    have hle := fits_of_pathsRight hp h
    omega
  · intro h
    exact pathsRight_of_fits hp ((isText_iff p).mpr hnul) (by omega)

theorem pathsRight_gfx0 :
    PathsRight [⟨"_SB_".toList, rfl⟩, ⟨"PCI0".toList, rfl⟩, ⟨"GFX0".toList, rfl⟩] :=
  (pathsRight_iff (by simp) (by decide)).mpr (by decide)

end Umka.Proof.Acpi
