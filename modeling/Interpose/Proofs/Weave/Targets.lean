import Interpose.Proofs.Machine.Entry
import Interpose.Proofs.Weave.Called
/-!
# Methods that woven code calls

Woven code that called a woven method would announce its own announcements without end. A pass
spares each method that has the owner and the name of a member it calls, whatever the parameters
are, and each method of the dispatcher type. Since a call is dispatched by owner and name too, woven
code enters no method that was woven in the same pass.

Results:
* `spared_of_refusal`: what is refused by its name is woven under no signature.
* `mem_hookTargets`: a member of the module that the context names is a target of hooks.
* `weaveInPlace_spares_targets`: emitted code enters no method that the pass wove.
-/
namespace Interpose

/-- No method of this name in a type of this name was woven. -/
def Spared (visits : List Visit) (typeName name : String) : Prop :=
  ∀ v ∈ visits, v.typeName = typeName → v.before.name = name → ∀ hooks, v.verdict ≠ .ok hooks

/-! ## Refusals -/

namespace WeavePass

variable {p : WeavePass}

theorem refusal?_of_dispatcher (p : WeavePass) (name : String) :
    p.refusal? p.config.dispatcherType name ≠ none := by
  unfold refusal?
  simp only [beq_self_eq_true, Bool.true_or, if_true]
  split <;> nofun

theorem refusal?_of_target {typeName name : String} (h : (typeName, name) ∈ p.hookTargets) :
    p.refusal? typeName name ≠ none := by
  have hcontains : p.hookTargets.contains (typeName, name) = true := List.contains_iff_mem.2 h
  unfold refusal?
  simp only [hcontains, Bool.or_true, if_true]
  split <;> nofun

end WeavePass

theorem mem_hookTargets {imports : ImportTable} {members : List MemberId} {id : MemberId}
    {member : MemberRef} (hid : id ∈ members) (hget : imports.get? id = some member)
    (hscope : member.scope = .module) :
    (member.owner, member.name) ∈ hookTargets imports members := by
  refine List.mem_filterMap.2 ⟨id, hid, ?_⟩
  rw [hget]
  exact if_pos hscope

section

variable {m : Module} {config : WeaveConfig}

/-- What is refused by its name is woven under no signature. -/
theorem spared_of_refusal {typeName name : String}
    (h : (m.pass config).refusal? typeName name ≠ none) :
    Spared (m.visits config) typeName name := by
  rintro v hv rfl rfl hooks hok
  exact h (WeavePass.visit_eq_ok (visit_of_ok hv hok)).1

/-- The context names an entry of the import table, and spares it if it is the module's own. -/
theorem spared_of_id? {s : HookSymbol} {id : MemberId}
    (h : (m.pass config).context.id? s = some id) :
    ∃ member, (m.pass config).imports.get? id = some member ∧
      (member.scope = .module → Spared (m.visits config) member.owner member.name) := by
  obtain ⟨d, -, member, -, hget⟩ := (m.resolved_pass config).1.means s id h
  refine ⟨member, hget, fun hscope => spared_of_refusal (WeavePass.refusal?_of_target ?_)⟩
  exact mem_hookTargets (HookContext.mem_members h) hget hscope

/-- What the machine enters in a module that a pass left is a method that the pass visited. -/
theorem exists_visit_of_dispatch? {member : MemberRef} {d : Method}
    (h : (m.woven config).dispatch? member = some d) :
    ∃ v ∈ m.visits config, v.typeName = member.owner ∧ v.before.name = member.name ∧
      v.after = d := by
  obtain ⟨hmem, hname⟩ := Module.mem_methods_of_dispatch? h
  rw [Module.methods_woven] at hmem
  obtain ⟨v, hv, hpair⟩ := List.mem_map.1 hmem
  obtain ⟨howner, hafter⟩ := Prod.mk.inj hpair
  refine ⟨v, hv, howner, ?_, hafter⟩
  obtain ⟨x, -, rfl⟩ := List.mem_map.1 hv
  rw [← hname, ← hafter]
  exact ((m.pass config).after_signature x).1.symm

/-- What the pass puts into a method names entries of the import table that it spares. -/
theorem spared_of_emitted {v : Visit} (hv : v ∈ m.visits config) {hooks : WovenHooks}
    (hok : v.verdict = .ok hooks) : ∃ b woven,
      v.before.body? = some b ∧ v.after.body? = some woven ∧
      ∀ i, Emitted b woven i → ∀ id, i.member? = some id →
        ∃ member, (m.woven config).imports.get? id = some member ∧
          (member.scope = .module → Spared (m.visits config) member.owner member.name) := by
  obtain ⟨b, woven, hb, hwoven, -, hnamed⟩ := emitted_of_visit (visit_of_ok hv hok)
  refine ⟨b, woven, hb, hwoven, fun i hi id hid => ?_⟩
  obtain ⟨s, hs⟩ := hnamed i hi id hid
  rw [imports_woven hv hok]
  exact spared_of_id? hs

/-- A step that enters a method from an instruction that names what is spared enters what is
spared. -/
theorem spared_of_step {i : Instruction} {host : Host} {s s' : State}
    (hspared : ∀ id, i.member? = some id →
      ∃ member, (m.woven config).imports.get? id = some member ∧
        (member.scope = .module → Spared (m.visits config) member.owner member.name))
    (hi : s.current.routine.code[s.current.frame.pc]? = some i)
    (hstep : Machine.step ⟨m.woven config, host⟩ s = .running s')
    (hdeeper : s.callers.length < s'.callers.length) :
    ∃ u ∈ m.visits config, u.typeName = s'.current.routine.typeName ∧
      u.after = s'.current.routine.method ∧
      Spared (m.visits config) u.typeName u.before.name := by
  obtain ⟨i', id, member, hi', hid, hget, hscope, hdispatch, htype⟩ :=
    Machine.entered_of_step hstep hdeeper
  obtain rfl : i = i' := Option.some.inj (hi.symm.trans hi')
  obtain ⟨member', hget', hspare⟩ := hspared id hid
  obtain rfl : member = member' := Option.some.inj (hget.symm.trans hget')
  obtain ⟨u, hu, howner, hname, hafter⟩ := exists_visit_of_dispatch? hdispatch
  refine ⟨u, hu, howner.trans htype.symm, hafter, ?_⟩
  rw [howner, hname]
  exact hspare hscope

end

/-- A pass spares the dispatcher type, and whatever the code that it puts into a method names among
the module's own members. A step of the machine that enters a method from such code enters one that
the pass visited and did not weave, nor any of its overloads. -/
theorem weaveInPlace_spares_targets (config : WeaveConfig) (stopped : Bool) (m : Module) :
    match (Module.weaveInPlace config stopped).run m with
    | (.error _, m') => m' = m
    | (.ok report, m') => ∃ visits, Ledger stopped m report m' visits ∧
        (∀ name, Spared visits config.dispatcherType name) ∧
        ∀ v ∈ visits, ∀ hooks, v.verdict = .ok hooks → ∃ b woven,
          v.before.body? = some b ∧ v.after.body? = some woven ∧
          ∀ i, Emitted b woven i →
            (∀ id, i.member? = some id → ∃ member, m'.imports.get? id = some member ∧
              (member.scope = .module → Spared visits member.owner member.name)) ∧
            ∀ host s s', s.current.routine.code[s.current.frame.pc]? = some i →
              Machine.step ⟨m', host⟩ s = .running s' → s.callers.length < s'.callers.length →
              ∃ u ∈ visits, u.typeName = s'.current.routine.typeName ∧
                u.after = s'.current.routine.method ∧ Spared visits u.typeName u.before.name := by
  rw [run_weaveInPlace_eq]
  by_cases hmeta : m.metadataOnly = true
  · rw [if_pos hmeta]
  · rw [if_neg hmeta]
    cases stopped with
    | true =>
      exact ⟨[], ledger_of_stopped m, fun _ _ hv => absurd hv List.not_mem_nil,
        fun _ hv => absurd hv List.not_mem_nil⟩
    | false =>
      refine ⟨m.visits config, ledger_of_pass m config, fun name =>
        spared_of_refusal ((m.pass config).refusal?_of_dispatcher name), ?_⟩
      intro v hv hooks hok
      obtain ⟨b, woven, hb, hwoven, hspared⟩ := spared_of_emitted hv hok
      exact ⟨b, woven, hb, hwoven, fun i hi =>
        ⟨hspared i hi, fun host s s' hat => spared_of_step (hspared i hi) hat⟩⟩

end Interpose
