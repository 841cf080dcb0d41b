import Mathlib.Data.Fintype.EquivFin
import Interpose.Proofs.Weave.Simulation
/-!
# Weaving preserves what programs compute

A call of a method ends in the woven module as it does in the original one, and what it
leaves behind is the same but for what the hooks have added.

Results:
* `Machine.closed_of_invoke`: a run leaves no value that refers to nothing.
* `weave_preserves`: a woven module computes what the original one does.
-/
namespace Interpose

/-! ## Heaps stay closed -/

/-- A pass that includes none of a module's types leaves it as it is. -/
theorem exists_woven_self (vm : Machine) : ∃ p, Woven vm vm p := by
  obtain ⟨name, hname⟩ :=
    Infinite.exists_notMem_finset (vm.module.types.map (·.name)).toFinset
  let p : WeavePass := ⟨{ includeTypes := [name] }, {}, vm.module.imports, []⟩
  have hvisit (t : TypeDef) (ht : t ∈ vm.module.types) (d : Method) :
      p.visit t.name d = (.error .excluded, d) := by
    have hne : t.name ≠ name := by
      rintro rfl
      exact hname (List.mem_toFinset.2 (List.mem_map_of_mem ht))
    have hselects : p.config.selects t.name d.name = false := by
      unfold WeaveConfig.selects
      rw [show p.config.includeTypes = [name] from rfl]
      simp [hne]
    unfold WeavePass.visit
    rw [hselects]
    rfl
  have htype (t : TypeDef) (ht : t ∈ vm.module.types) : (p.visitType t).2 = t := by
    have hmethods : (p.visitType t).2.methods = t.methods := by
      rw [WeavePass.visitType_methods]
      refine (List.map_congr_left fun d _ => ?_).trans (List.map_id _)
      exact congrArg Prod.snd (hvisit t ht d)
    show { t with methods := (p.visitType t).2.methods } = t
    rw [hmethods]
  refine ⟨p, rfl, ⟨?_, .refl _, .refl _, fun t ht d _ hooks d' hv => ?_⟩,
    fun t ht d _ hooks d' hv => ?_⟩
  · exact ((List.map_congr_left htype).trans (List.map_id _)).symm
  · cases (hvisit t ht d).symm.trans hv
  · cases (hvisit t ht d).symm.trans hv

/-- A run that starts with a closed heap and values of it ends so. -/
theorem Machine.closed_of_invoke {vm : Machine} {fuel : Nat} {w : World}
    {typeName method : String} {args : List Value} {o : Outcome} (hclosed : w.heap.Closed)
    (hargs : ∀ v ∈ args, v.Within w.heap)
    (ho : vm.invoke fuel w typeName method args = some o) :
    o.world.heap.Closed ∧
      ∀ v, o.result = .ok v ∨ o.result = .error (.thrown v) → v.Within o.world.heap := by
  obtain ⟨p, hwoven⟩ := exists_woven_self vm
  obtain ⟨ρ, q, -, -, hm⟩ :=
    simulates_invoke hwoven (matchAll_keep hargs) hclosed.matches_keep ho
  cases hm with
  | @done o o' h =>
    refine ⟨h.heap.closed, fun v hv => ?_⟩
    have hresult := h.result
    generalize o'.result = result' at hresult
    rcases hv with hv | hv
    · rw [hv] at hresult
      cases hresult with
      | value hm => exact h.heap.within hm
    · rw [hv] at hresult
      cases hresult with
      | thrown hm => exact h.heap.within hm
  | ruledOut _ hw q =>
    refine ⟨hw, fun v hv => ?_⟩
    rcases hv with hv | hv <;> cases hv

/-! ## Woven modules -/

theorem woven_of_weave {m m' : Module} {config : WeaveConfig} {stopped : Bool}
    {report : WeaveReport} (host : Host) (hw : m.weave config stopped = .ok (report, m'))
    (hc : report.cancelled = false) (htype : host.dispatcherType = config.dispatcherType)
    (hsystem : config.dispatcherType ∉ systemTypes)
    (hdeclared : (m.pass config).context.AsDeclared (m.pass config).imports
      (hostLibraries config.dispatcherType config.hookLibrary)) :
    Woven ⟨m, host⟩ ⟨m', host⟩ (m.pass config) :=
  ⟨rfl, (weaves_of_weave hw hc).1, fun _ ht _ hd _ _ hv =>
    hosts_of_weave host hw hc htype hsystem hdeclared ht hd hv⟩

/-- A verified module does not end with a fault that the verifier rules out. -/
theorem isRuledOut_eq_false {vm : Machine} (hv : vm.module.Verified) {fuel : Nat}
    {w w' : World} {typeName method : String} {args : List Value} {cause : MachineFault}
    (ho : vm.invoke fuel w typeName method args = some ⟨.error (.fault cause), w'⟩) :
    cause.isRuledOut = false := by
  have hend := Machine.soundEnd_of_invoke hv ho
  unfold MachineFault.isRuledOut
  cases hcode : cause.isOfCode with
  | false => rfl
  | true =>
    obtain ⟨⟨pos, rfl⟩, -⟩ := hend cause rfl hcode
    rfl

/-- A woven module computes what the original one does. A call that ends with a value or
with an uncaught exception ends with the same, and the arrays that there were before hold
the same; only what the runs made themselves may have other identities. A call that ends
with a fault ends with one of the same kind, if the verifier accepts the original bodies. -/
theorem weave_preserves {m m' : Module} {config : WeaveConfig} {stopped : Bool}
    {report : WeaveReport} (host : Host) (hw : m.weave config stopped = .ok (report, m'))
    (hc : report.cancelled = false) (htype : host.dispatcherType = config.dispatcherType)
    (hsystem : config.dispatcherType ∉ systemTypes)
    (hdeclared : (m.pass config).context.AsDeclared (m.pass config).imports
      (hostLibraries config.dispatcherType config.hookLibrary))
    {w : World} (hclosed : w.heap.Closed) {args : List Value}
    (hargs : ∀ v ∈ args, v.Within w.heap) {typeName method : String} {fuel : Nat} {o : Outcome}
    (ho : Machine.invoke ⟨m, host⟩ fuel w typeName method args = some o)
    (hfault : ∀ cause, o.result = .error (.fault cause) → m.Verified) :
    ∃ fuel' o' ρ, Machine.invoke ⟨m', host⟩ fuel' w typeName method args = some o' ∧
      Renaming.Extends ρ (.keep w.heap) ∧ o.Matches ρ o' ∧
      ∀ r < w.heap.arrays.size,
        MatchAll ρ (o.world.heap.items r).toList (o'.world.heap.items r).toList := by
  have hwoven := woven_of_weave host hw hc htype hsystem hdeclared
  obtain ⟨ρ, q, he, hlead, hm⟩ :=
    simulates_invoke hwoven (matchAll_keep hargs) hclosed.matches_keep ho
  cases hm with
  | @done o o' h =>
    obtain ⟨fuel', ho'⟩ := Machine.invoke_of_leads hlead
    exact ⟨fuel', o', ρ, ho', he, h, fun r hr => h.heap.items r r (he.arrays_of_keep hr)⟩
  | ruledOut hruled _ q =>
    rw [isRuledOut_eq_false (hfault _ rfl) ho] at hruled
    cases hruled

/-- A module with a method that stores its second argument in its first one. -/
def recorder : Module where
  name := "Shop"
  types := [⟨"Cart", [{
    name := "Record"
    flags := .static
    params := [⟨0, "prices", .array .int32⟩, ⟨1, "price", .int32⟩]
    returnType := .int32
    body? := some (.ofList
      [.ldarg 0, .ldcI4 1, .ldarg 1, .plain .stelem, .ldarg 1, .plain .ret]) }]⟩]
  references := hostLibraries defaultDispatcherType defaultHookLibrary

/-- A world with one array. -/
def shelf : World where
  heap := { arrays := #[#[.int32 3, .int32 4]] }

/-- Woven, the method stores the same and returns the same. -/
theorem recorder_weave_preserves :
    ∃ (report : WeaveReport) (m' : Module) (fuel' : Nat) (o o' : Outcome) (ρ : Renaming),
      recorder.weave {} false = .ok (report, m') ∧
      Machine.invoke ⟨recorder, {}⟩ 6 shelf "Cart" "Record" [.array 0, .int32 5] = some o ∧
      o.result = .ok (.int32 5) ∧
      Machine.invoke ⟨m', {}⟩ fuel' shelf "Cart" "Record" [.array 0, .int32 5] = some o' ∧
      o.Matches ρ o' ∧
      MatchAll ρ (o.world.heap.items 0).toList (o'.world.heap.items 0).toList := by
  have hweave : (recorder.weave {} false).toOption.any (fun r => !r.1.cancelled) = true := by
    decide +kernel
  have hinvoke : (Machine.invoke ⟨recorder, {}⟩ 6 shelf "Cart" "Record"
      [.array 0, .int32 5]).any (fun o => o.result.toOption = some (.int32 5)) = true := by
    decide +kernel
  obtain ⟨⟨report, m'⟩, hw, hc⟩ := (Option.any_eq_true _ _).1 hweave
  obtain ⟨o, ho, hresult⟩ := (Option.any_eq_true _ _).1 hinvoke
  have hresult := toOption_eq_some.1 (of_decide_eq_true hresult)
  have hclosed : shelf.heap.Closed := by
    intro items hitems v hv
    obtain rfl := List.mem_singleton.1 (Array.mem_toList_iff.2 hitems)
    rcases List.mem_pair.1 (Array.mem_toList_iff.2 hv) with rfl | rfl
    · exact trivial
    · exact trivial
  have hargs (v : Value) (hv : v ∈ [Value.array 0, .int32 5]) : v.Within shelf.heap := by
    rcases List.mem_pair.1 hv with rfl | rfl
    · exact Nat.zero_lt_one
    · exact trivial
  obtain ⟨fuel', o', ρ, ho', -, hm, harrays⟩ := weave_preserves {} (toOption_eq_some.1 hw)
    (by simpa using hc) rfl (by decide) (by decide +kernel) hclosed hargs ho
    fun cause hfault => by rw [hresult] at hfault; cases hfault
  exact ⟨report, m', fuel', o, o', ρ, toOption_eq_some.1 hw, ho, hresult, ho', hm,
    harrays 0 Nat.zero_lt_one⟩

end Interpose
