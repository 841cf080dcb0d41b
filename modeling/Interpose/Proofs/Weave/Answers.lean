import Interpose.Machine.Host
import Interpose.Proofs.Weave.Mirror
/-!
# Members of the host up to renaming

Called with arguments that match, each member that the host offers gives answers that
match and leaves heaps that do.

Results:
* `mirrors_hostCall`: a call of a member of the host.
-/
namespace Interpose

namespace Host

variable {F : FaultMatch} {ρ : Renaming} {host : Host} {w w' : World} {member : MemberRef}
  {args args' : List Value}

/-- The answers of a member that both worlds give, and the heaps they leave. -/
def Answers (F : FaultMatch) (ρ : Renaming) (x x' : Except Trap Value × World) : Prop :=
  ∃ ρ' : Renaming, ρ'.Extends ρ ∧ Mirrors F ρ' (Value.Matches ρ') x.1 x'.1 ∧
    x.2.heap.Matches ρ' x'.2.heap

theorem answers_of_mirrors {x x' : Except Trap Value} (hx : Mirrors F ρ (Value.Matches ρ) x x')
    (hw : w.heap.Matches ρ w'.heap) : Answers F ρ (x, w) (x', w') := ⟨ρ, .refl ρ, hx, hw⟩

/-- The hooks, and how many arguments each of them takes. -/
def hookArities : List (String × Nat) :=
  [("Init", 3), ("OnEntry", 0), ("OnExit", 0), ("OnException", 1)]

theorem heap_announceIf (w : World) (listening : Bool) (a : Announcement) :
    (w.announceIf listening a).heap = w.heap := by
  cases listening <;> rfl

/-- A hook only announces. -/
theorem callHook_dispatcher (host : Host) (w : World) (hn : member.name ≠ "get_Instance")
    (values : List Value) :
    (host.callHook w member (.dispatcher :: values)).1 =
        (if (member.name, values.length) ∈ hookArities then .ok .null
        else .error (.fault (.unresolvedCall member.fullName))) ∧
      (host.callHook w member (.dispatcher :: values)).2.heap = w.heap := by
  unfold callHook
  dsimp only
  rw [if_neg hn]
  split
  · next receiver method array hname =>
    rw [hname]
    exact ⟨rfl, heap_announceIf _ _ _⟩
  · next hname =>
    rw [hname]
    exact ⟨rfl, heap_announceIf _ _ _⟩
  · next hname =>
    rw [hname]
    exact ⟨rfl, heap_announceIf _ _ _⟩
  · next v hname =>
    rw [hname]
    exact ⟨rfl, heap_announceIf _ _ _⟩
  · next values _ _ hinit hentry hexit hexception =>
    have hother : (member.name, values.length) ∉ hookArities := by
      simp only [hookArities, List.mem_cons, Prod.mk.injEq, List.not_mem_nil, or_false]
      rintro (⟨hn, hlen⟩ | ⟨hn, hlen⟩ | ⟨hn, hlen⟩ | ⟨hn, hlen⟩)
      · obtain ⟨receiver, method, array, hrest⟩ := List.length_eq_three.1 hlen
        exact hinit receiver method array hn hrest
      · exact hentry hn (List.length_eq_zero_iff.1 hlen)
      · exact hexit hn (List.length_eq_zero_iff.1 hlen)
      · obtain ⟨v, hrest⟩ := List.length_eq_one_iff.1 hlen
        exact hexception v hn hrest
    rw [if_neg hother]
    exact ⟨rfl, rfl⟩

theorem answers_callHook (hF : ∀ e, F.alike e e) (hw : w.heap.Matches ρ w'.heap) (ha : MatchAll ρ args args') :
    Answers F ρ (host.callHook w member args) (host.callHook w' member args') := by
  by_cases hn : member.name = "get_Instance"
  · unfold callHook
    dsimp only
    rw [if_pos hn, if_pos hn]
    exact answers_of_mirrors (mirrors_ok .dispatcher) hw
  · cases ha with
    | nil =>
      unfold callHook
      dsimp only
      rw [if_neg hn, if_neg hn]
      exact answers_of_mirrors (mirrors_fault (hF _)) hw
    | @cons v v' rest rest' hv hrest =>
      cases hv with
      | dispatcher =>
        obtain ⟨hresult, hheap⟩ := callHook_dispatcher host w hn rest
        obtain ⟨hresult', hheap'⟩ := callHook_dispatcher host w' hn rest'
        refine ⟨ρ, .refl ρ, ?_, by rw [hheap, hheap']; exact hw⟩
        rw [hresult, hresult', hrest.length_eq]
        split
        · exact mirrors_ok .null
        · exact mirrors_fault (hF _)
      | _ =>
        unfold callHook
        dsimp only
        rw [if_neg hn, if_neg hn]
        exact answers_of_mirrors (mirrors_raise _) hw

theorem argumentText_matches (hw : w.heap.Matches ρ w'.heap) (ha : MatchAll ρ args args')
    (index : Nat) : argumentText w' args' index = argumentText w args index := by
  unfold argumentText
  cases hv : args[index]? with
  | none =>
    rw [forall₂_getElem?_none ha hv]
    rfl
  | some v =>
    obtain ⟨v', hv', hm⟩ := forall₂_getElem? ha hv
    rw [hv', Option.map_some, Option.map_some, hw.text hm]

theorem mirrors_callJoin (hw : w.heap.Matches ρ w'.heap) (ha : MatchAll ρ args args') :
    Mirrors F ρ (Value.Matches ρ) (callJoin w args) (callJoin w' args') := by
  unfold callJoin
  cases hv : args[1]? with
  | none =>
    rw [forall₂_getElem?_none ha hv]
    exact mirrors_raise _
  | some v =>
    obtain ⟨v', hv', hm⟩ := forall₂_getElem? ha hv
    rw [hv', Option.bind_some, Option.bind_some]
    rcases hw.elements? hm with ⟨hnone, hnone'⟩ | ⟨items, items', hsome, hsome', hitems⟩
    · rw [hnone, hnone']
      exact mirrors_raise _
    · have htexts : items.toList.map w.heap.text = items'.toList.map w'.heap.text :=
        forall₂_map_eq hitems fun a b hab => (hw.text hab).symm
      rw [hsome, hsome']
      dsimp only
      rw [argumentText_matches hw ha, htexts]
      exact mirrors_ok (.text _)

theorem mirrors_callFormat (hw : w.heap.Matches ρ w'.heap) (ha : MatchAll ρ args args') :
    Mirrors F ρ (Value.Matches ρ) (callFormat w args) (callFormat w' args') := by
  have htext := argumentText_matches hw ha 1
  cases ha with
  | nil => exact mirrors_raise _
  | cons hv hrest =>
    cases hv with
    | text s =>
      unfold callFormat
      dsimp only
      rw [htext]
      exact mirrors_ok (.text _)
    | _ => exact mirrors_raise _

theorem answers_callConstructor (hw : w.heap.Matches ρ w'.heap) (ha : MatchAll ρ args args')
    (className : String) :
    Answers F ρ (.ok (callConstructor w className args).1, (callConstructor w className args).2)
      (.ok (callConstructor w' className args').1, (callConstructor w' className args').2) := by
  have made (message : String) : Answers F ρ
      (.ok (w.heap.newObject className message).1,
        { w with heap := (w.heap.newObject className message).2 })
      (.ok (w'.heap.newObject className message).1,
        { w' with heap := (w'.heap.newObject className message).2 }) := by
    obtain ⟨ρ', he, hv, hh⟩ := hw.newObject className message
    exact ⟨ρ', he, mirrors_ok hv, hh⟩
  cases ha with
  | nil => exact made _
  | cons hv hrest => cases hv <;> exact made _

theorem mirrors_callMessage (ha : MatchAll ρ args args') :
    Mirrors F ρ (Value.Matches ρ) (callMessage args) (callMessage args') := by
  cases ha with
  | nil => exact mirrors_raise _
  | cons hv hrest =>
    cases hv with
    | object className message hr => exact mirrors_ok (.text message)
    | _ => exact mirrors_raise _

theorem heap_callWriteLine (host : Host) (w : World) (args : List Value) :
    (host.callWriteLine w args).heap = w.heap := heap_announceIf _ _ _

/-- A call of a member of the host. -/
theorem mirrors_hostCall (hF : ∀ e, F.alike e e) (hw : w.heap.Matches ρ w'.heap)
    (ha : MatchAll ρ args args') (host : Host) (member : MemberRef) {current : Value} (hc : current.Matches ρ current) :
    Answers F ρ (host.call w member args current) (host.call w' member args' current) := by
  unfold call
  dsimp only
  split
  · exact answers_callHook hF hw ha
  · split
    · exact answers_callConstructor hw ha member.owner
    · split
      · exact answers_of_mirrors (mirrors_callMessage ha) hw
      · split
        · exact answers_of_mirrors (mirrors_ok hc) hw
        · split
          · exact answers_of_mirrors (mirrors_callJoin hw ha) hw
          · split
            · exact answers_of_mirrors (mirrors_callFormat hw ha) hw
            · split
              · refine ⟨ρ, .refl ρ, mirrors_ok .null, ?_⟩
                rw [heap_callWriteLine, heap_callWriteLine]
                exact hw
              · exact answers_of_mirrors (mirrors_fault (hF _)) hw

end Host

end Interpose
