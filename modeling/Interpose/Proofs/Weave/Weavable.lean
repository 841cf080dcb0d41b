import Interpose.Proofs.Body.Alike
import Interpose.Proofs.Verify.Alike
import Interpose.Proofs.Weave.Depths
import Interpose.Proofs.Weave.Pass
import Interpose.Proofs.Weave.Snapshot
import Interpose.Proofs.Weave.Success
/-!
# Bodies that verify can be woven

Whatever hooks a module offers, as long as they can be called the way woven code does,
weaving a method whose body verifies neither fails nor spoils the body.

Results:
* `fits_of_weave`: what weaving adds passes the checks of the verifier.
* `instrument_isOk`: a method with a body that verifies is woven, and verifies again.
-/
namespace Interpose

theorem Layout.Describes.lt_of_owns {L : Layout} {woven : Body} (h : L.Describes woven)
    {slot : SlotId} (hs : L.Owns slot) : slot.toNat < woven.locals.size := by
  rw [h.size_locals]
  exact hs.2

variable {c : HookContext} {config : WeaveConfig} {d : Method}

/-- What weaving adds passes the checks of the verifier. -/
theorem fits_of_weave {hooks : WovenHooks} {L : Layout} {array exception : SlotId} {woven : Body}
    {imports : ImportTable} {rs : List Region} (hs : c.Signed imports)
    (hparams : d.params.length < 65535) (hd : L.Describes woven)
    (hp : WovenBody c config (.ofMethod d) d.name d.returnType hooks L array exception) :
    L.Fits (.of d woven imports rs) where
  prologue := by
    rw [hp.prologue]
    exact HookContext.carries_announceCode config hs (fun hc => hd.lt_of_owns (hp.arraySlot hc))
      (Method.lt_argCount hparams)
  onException := by
    rw [hp.onException]
    refine (HookContext.carries_exceptionCode config hs fun he => ?_).append
      (HookContext.carries_exitCode hs)
    exact hd.lt_of_owns (hp.exceptionSlot (by rw [hp.keeps, if_pos he]; rfl))
  onReturn := by
    rw [hp.onReturn]
    split
    · exact HookContext.carries_exitCode hs
    · exact .nil 0
  result := hp.result
  resultSlot slot hr := hd.lt_of_owns (hp.resultSlot slot hr)
  exceptionSlot slot he := by
    have hsome : L.guard.exception?.isSome = true := by rw [he]; rfl
    have hkeeps := hp.keeps
    rw [he] at hkeeps
    split at hkeeps
    · obtain rfl := Option.some.inj hkeeps
      exact hd.lt_of_owns (hp.exceptionSlot hsome)
    · cases hkeeps

/-- Hooks that are as the host offers them can be called as woven code does. -/
theorem HookContext.Offers.callable {imports : ImportTable} {dispatcherType : String}
    (h : c.Offers imports dispatcherType) : c.Callable imports := by
  have only (s : HookSymbol) (id : MemberId) (hid : c.id? s = some id) (member : MemberRef)
      (hm : imports.get? id = some member) :
      ∃ library, member = s.member dispatcherType library := by
    obtain ⟨library, hget⟩ := h.member s id hid
    exact ⟨library, Option.some.inj (hm.symm.trans hget)⟩
  refine ⟨fun s hook hh member hm => ?_, fun s hs id hid member hm => ?_,
    fun id hid member hm => ?_⟩
  · obtain ⟨library, rfl⟩ := only s hook.member (id?_of_hook? hh) member hm
    cases s with
    | init | onEntry | onExit | onException => rfl
    | _ => cases hh
  · obtain ⟨library, rfl⟩ := only s id hid member hm
    cases s with
    | accessor | currentMethod | join | format => exact ⟨rfl, rfl⟩
    | _ => exact absurd hs (by decide)
  · obtain ⟨library, rfl⟩ := only .writeLine id hid member hm
    exact ⟨rfl, rfl⟩

/-- A body that verifies can be woven. The hooks are resolved in the module of the method,
and those that are there can be called as woven code does; which of them are there, and what
the pass is told to call, does not matter. Weaving then does not fail, and the woven body
verifies under the imports with the hooks. Its greatest depth is at least the one before, and
no more unless it is 4 or less. -/
theorem instrument_isOk (config : WeaveConfig) {m : Module} {t : SymbolTable} {r : Resolver}
    {b : Body} {k : UInt16} (ht : t.IsStandard)
    (hr : (HookContext.resolve t).run ⟨m, []⟩ = (c, r)) (hc : c.Callable r.module.imports)
    (habstract : d.flags.contains .abstract = false)
    (hexternal : d.flags.contains .external = false)
    (hattribute : d.hasAttribute instrumentedAttribute = false)
    (hparams : d.params.length < 65535) (hbody : d.body? = some b)
    (hlocals : b.locals.size ≤ 65533) (hv : verifyBody d b m.imports = .ok k) :
    ∃ hooks d' woven, c.instrument config r.module.imports d = .ok (hooks, d') ∧
      d'.body? = some woven ∧ verifyBody d' woven r.module.imports = .ok woven.maxStack ∧
      k ≤ woven.maxStack ∧ woven.maxStack ≤ max k 4 := by
  obtain ⟨hresolved, hextends⟩ := HookContext.means_of_resolve hr
  obtain ⟨w, hw, -⟩ := verifyBody_eq_ok_iff.1 hv
  obtain ⟨rs, hformed, -, -⟩ := sound_of_verifyWalk hw
  have hne : b.stream ≠ [] := hformed.nonempty
  obtain ⟨hooks, woven, hweave⟩ :=
    weave_isOk hne hlocals c config (.ofMethod d) d.name d.returnType
  obtain ⟨L, array, exception, rfl, hdescribes, hparts⟩ := layout_of_weave hweave
  have hstraight : Straight L.prologue := by
    rw [hparts.prologue]
    exact c.straight_announceCode config _ _ _
  obtain ⟨k', hk', hle, htop⟩ := L.verifyBody_of_fits hdescribes hextends hstraight
    (fun rs => fits_of_weave (HookContext.signed_of_callable ht hresolved hc) hparams hdescribes
      hparts) hv
  have hcheck : checkBody d = .ok L.body := by
    rw [checkBody, habstract, hexternal, hbody]
    simpa using hne
  let stored : Body := { woven with maxStack := k' }
  let d' : Method := { d with
    attributes := d.attributes ++ [instrumentedAttribute]
    body? := some stored }
  refine ⟨hooks, d', stored, ?_, rfl, ?_, hle, htop⟩
  · unfold HookContext.instrument
    refine bind_eq_ok.2 ⟨L.body, hcheck, ?_⟩
    rw [hattribute]
    exact bind_eq_ok.2 ⟨(hooks, woven), mapError_eq_ok.2 hweave,
      bind_eq_ok.2 ⟨k', mapError_eq_ok.2 hk', rfl⟩⟩
  · have hsame : d.SameFrame d' := ⟨rfl, rfl⟩
    have halike : woven.Alike stored := .withMaxStack woven k'
    rw [← verifyBody_alike hsame halike, hk']

/-- A method that tests its argument again and again, in a region whose handler is open to
the end of the body. -/
def poll : Method where
  name := "Poll"
  flags := .static
  params := [⟨0, "ready", .bool⟩]
  returnType := .int32
  body? := some { Body.ofList [.ldarg 0, ⟨.brfalse, .target 0⟩, .leave 3, .ldcI4 7, .plain .ret,
    .plain .pop, .leave 3] with handlers := [⟨.catchAll, 0, some 3, 5, none⟩] }

/-- A module whose references offer all hooks. -/
def station : Module where
  name := "Station"
  types := [⟨"Clock", [poll]⟩]
  references := hostLibraries defaultDispatcherType defaultHookLibrary

/-- A configuration that calls all hooks and prints the arguments. -/
def thorough : WeaveConfig where
  notifyExitOnReturn := true
  traceArguments := true

/-- With all that is woven in, the loop back to the first instruction and the open region
verify as they did before. -/
theorem poll_instrument_isOk :
    ∃ (b : Body) (hooks : WovenHooks) (d' : Method) (woven : Body),
      poll.body? = some b ∧ verifyBody poll b station.imports = .ok 1 ∧
      (station.pass thorough).context.instrument thorough (station.pass thorough).imports poll =
        .ok (hooks, d') ∧
      hooks = ⟨true, true, true, true, true⟩ ∧ d'.body? = some woven ∧
      verifyBody d' woven (station.pass thorough).imports = .ok woven.maxStack ∧
      1 ≤ woven.maxStack ∧ woven.maxStack ≤ max 1 4 := by
  obtain ⟨b, hb⟩ : ∃ b, poll.body? = some b := ⟨_, rfl⟩
  have hlocals : b.locals.size ≤ 65533 := by
    cases hb
    decide
  have hverify : verifyBody poll b station.imports = .ok 1 := by
    cases hb
    decide +kernel
  obtain ⟨r, hr, hi⟩ : ∃ r, (HookContext.resolve (.forConfig thorough)).run ⟨station, []⟩ =
      ((station.pass thorough).context, r) ∧ r.module.imports = (station.pass thorough).imports :=
    ⟨_, rfl, rfl⟩
  have hdeclared : (station.pass thorough).context.AsDeclared (station.pass thorough).imports
      (hostLibraries thorough.dispatcherType thorough.hookLibrary) := by
    decide +kernel
  have hcallable : (station.pass thorough).context.Callable r.module.imports := by
    rw [hi]
    exact (HookContext.offers_of_asDeclared (station.resolved_pass thorough).1 hdeclared).callable
  obtain ⟨hooks, d', woven, hok, hrest⟩ := instrument_isOk thorough (.inr ⟨_, rfl⟩) hr hcallable
    (by decide) (by decide) (by decide) (by decide) hb hlocals hverify
  rw [hi] at hok hrest
  have hcalls : ((station.pass thorough).context.instrument thorough
      (station.pass thorough).imports poll).toOption.map (·.1) =
        some ⟨true, true, true, true, true⟩ := by
    decide +kernel
  rw [hok] at hcalls
  exact ⟨b, hooks, d', woven, hb, hverify, hok, Option.some.inj hcalls, hrest⟩

end Interpose
