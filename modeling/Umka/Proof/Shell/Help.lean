import Umka.Shell.CmdTable

/-!
# `help <command>` and the commands that do not expect it

`cmd_help` asks a handler for its usage by calling it with no arguments at all, `argc = 0` and
`argv = NULL`, and counts on the handler's own test of `argc`. For all but seven of the
commands the test turns the call down. Three of the seven only print kernel memory. The other
four go on: `umka_set_boot_params`, `board_get` and `net_add_device` to the NULL, `get_key` to
its system call.
-/

set_option autoImplicit false

namespace Umka.Proof.Shell

open Umka.Shell

section Writes

variable {σ κ : Type}

/-- The program prints something and changes nothing else. -/
def OnlyWrites (p : ShellM σ κ Unit) : Prop :=
  ∀ st : ShellSt σ κ, ∃ text, p.run st = some ((), { st with out := st.out ++ text })

theorem onlyWrites_fputs (text : String) : OnlyWrites (fputs text : ShellM σ κ Unit) :=
  fun _ => ⟨[text], rfl⟩

/-- A print whose text depends on kernel memory. -/
theorem onlyWrites_kernelMem (text : Kernel κ → String) :
    OnlyWrites (do fputs (text (← kernelMem)) : ShellM σ κ Unit) :=
  fun st => ⟨[text st.kernel], rfl⟩

end Writes

/-- `help <name>` has no side effects, whatever the shell, the kernel and the handlers are. -/
def HelpQuiet (name : List Char) : Prop :=
  ∀ (σ κ : Type) (rest : Rest σ κ), OnlyWrites (cmdHelpRun rest 2 (some ["help".toList, name]))

/-- The commands that run when they are asked for help. -/
def loudCommands : List String :=
  ["umka_set_boot_params", "board_get", "get_key", "net_add_device"]

/-! ## One handler -/

/-- Called without arguments the handler prints its usage, or memory. -/
def printsAtZero (f : CmdFunc) : Bool :=
  f.guard.rejects 0 || f.body ∈ [.dumpKeyBuff, .dumpWinStack, .dumpWinMap]

/-- Called without arguments it does something else. -/
def actsAtZero (f : CmdFunc) : Bool :=
  !f.guard.rejects 0 && f.body ∈ [.setBootParams, .boardGet, .getKey, .netAddDevice]

section Handler

variable {σ κ : Type} {f : CmdFunc}

theorem onlyWrites_of_prints (rest : Rest σ κ) (h : printsAtZero f = true) :
    OnlyWrites (f.call rest 0 none) := by
  rw [CmdFunc.call]
  split
  · exact onlyWrites_fputs f.usage
  · next hguard =>
    have hbody : f.body ∈ [.dumpKeyBuff, .dumpWinStack, .dumpWinMap] := by
      simpa [printsAtZero, hguard] using h
    simp only [List.mem_cons, List.not_mem_nil, or_false] at hbody
    rcases hbody with hb | hb | hb
    · rw [hb]
      exact fun st => ⟨_, rfl⟩
    · rw [hb]
      exact fun st => ⟨_, rfl⟩
    · rw [hb]
      exact onlyWrites_kernelMem _

/-- A shell and a kernel for the calls that go wrong. -/
def someState : ShellSt Unit Unit where
  out := []
  shell := ()
  kernel := ⟨⟨0, 0, 0, 0⟩, 0, fun _ => 0, fun _ => 0, ⟨0, 0, fun _ => 0⟩, ()⟩
  sysCalls := 0

def someRest : Rest Unit Unit where
  getKey := fun k => (0, k)
  addDevice := fun _ => pure ()
  run := fun _ _ _ => pure ()

/-- The call has no outcome, or it made a system call. -/
theorem not_onlyWrites_of_acts (h : actsAtZero f = true) :
    ¬ OnlyWrites (f.call someRest 0 none) := by
  intro hw
  obtain ⟨text, heq⟩ := hw someState
  simp only [actsAtZero, Bool.and_eq_true, Bool.not_eq_true', decide_eq_true_eq, List.mem_cons,
    List.not_mem_nil, or_false] at h
  obtain ⟨hguard, hb⟩ := h
  rw [CmdFunc.call, if_neg (by rw [hguard]; exact Bool.false_ne_true)] at heq
  rcases hb with hb | hb | hb | hb
  · rw [hb] at heq
    cases heq
  · rw [hb] at heq
    cases heq
  · rw [hb] at heq
    have hcalls := congrArg (Option.map fun r => r.2.sysCalls) heq
    cases hcalls
  · rw [hb] at heq
    cases heq

end Handler

/-! ## The table -/

/-- Every handler of the table is of one kind or the other, and the second kind are the four. -/
theorem cmdCmds_atZero : ∀ ft ∈ cmdCmds,
    (printsAtZero ft.func = true ∧ ft.name ∉ loudCommands)
      ∨ (actsAtZero ft.func = true ∧ ft.name ∈ loudCommands) := by
  decide +kernel

theorem cmdLookup_of_mem {ft : FuncTable} (h : ft ∈ cmdCmds) :
    ∃ ft' ∈ cmdCmds, ft'.name = ft.name ∧ cmdLookup ft.name.toList = some ft' := by
  cases hl : cmdLookup ft.name.toList with
  | none =>
    have hne := List.find?_eq_none.mp hl ft h
    simp at hne
  | some ft' =>
    refine ⟨ft', List.mem_of_find?_eq_some hl, ?_, rfl⟩
    simpa [String.toList_inj] using List.find?_some hl

theorem cmdHelpRun_of_lookup {σ κ : Type} (rest : Rest σ κ) {name : List Char} {ft : FuncTable}
    (h : cmdLookup name = some ft) :
    cmdHelpRun rest 2 (some ["help".toList, name]) = ft.func.call rest 0 none := by
  unfold cmdHelpRun
  simp [argAt, deref, h]

/-- **`help` on a command has no side effects exactly when the command is not one of the four.** -/
theorem helpQuiet_iff (ft : FuncTable) (h : ft ∈ cmdCmds) :
    HelpQuiet ft.name.toList ↔ ft.name ∉ loudCommands := by
  obtain ⟨ft', hmem, hname, hlookup⟩ := cmdLookup_of_mem h
  rw [← hname]
  rw [← hname] at hlookup
  rcases cmdCmds_atZero ft' hmem with ⟨hprints, hquiet⟩ | ⟨hacts, hloud⟩
  · refine ⟨fun _ => hquiet, fun _ σ κ rest => ?_⟩
    rw [cmdHelpRun_of_lookup rest hlookup]
    exact onlyWrites_of_prints rest hprints
  · refine ⟨fun hq => ?_, fun hn => absurd hloud hn⟩
    have hw := hq Unit Unit someRest
    rw [cmdHelpRun_of_lookup someRest hlookup] at hw
    exact absurd hw (not_onlyWrites_of_acts hacts)

theorem helpQuiet_iff_sendScancode :
    HelpQuiet "send_scancode".toList ↔ "send_scancode" ∉ loudCommands :=
  helpQuiet_iff ⟨"send_scancode", cmdSendScancode⟩ List.mem_cons_self

/-- `help get_key` makes a system call. -/
theorem help_getKey_not_quiet : ¬ HelpQuiet "get_key".toList := by
  intro hq
  have hmem : (⟨"get_key", cmdGetKey⟩ : FuncTable) ∈ cmdCmds := by simp [cmdCmds]
  obtain ⟨ft, hft, hname, hlookup⟩ := cmdLookup_of_mem hmem
  have hw := hq Unit Unit someRest
  rw [cmdHelpRun_of_lookup someRest hlookup] at hw
  rcases cmdCmds_atZero ft hft with ⟨-, hquiet⟩ | ⟨hacts, -⟩
  · exact hquiet (hname ▸ by decide)
  · exact not_onlyWrites_of_acts hacts hw

end Umka.Proof.Shell
