import Interpose.Proofs.Body.Chain
import Interpose.Proofs.Body.Codec
import Interpose.Proofs.Weave.Success
import Interpose.Weave.Chain
/-!
# Editing a body and its chain

A chain stores a body if it holds its entries and has its slots and handlers. Every call
that edits a body keeps this: on the chain it ends with the same answer, and stores what the
edit of the body gives. The guard differs in its steps, since on a chain it writes `nop`s
where the exit is not known yet; what it leaves is the same.

Results:
* `follows_insertBefore` and its like: single edits of the stream.
* `agrees_wrap`: guarding a chain and guarding the body it stores.
* `stores_edit`, `stores_edits`: one edit, and any sequence of them.
* `threaded_edits`: the links of an edited chain run both ways through all its ids.
-/
namespace Interpose

namespace Chain

variable {α : Type} {c c' : Chain} {b b' : Body} {i : Instruction} {id anchor : InstructionId}

/-- The parts of a chain that an edit of its stream leaves alone. -/
structure SameParts (c c' : Chain) : Prop where
  locals : c'.locals = c.locals
  handlers : c'.handlers = c.handlers

theorem SameParts.trans {c₁ c₂ c₃ : Chain} (h : SameParts c₁ c₂) (h' : SameParts c₂ c₃) :
    SameParts c₁ c₃ :=
  ⟨h'.locals.trans h.locals, h'.handlers.trans h.handlers⟩

theorem sameParts_splice (prev? next? : Option InstructionId) :
    SameParts c (c.splice prev? next? i) :=
  ⟨locals_splice .., handlers_splice ..⟩

/-- An edit of the stream alone ends on a chain as on a body: with the same answer and the
same entries, or with the same error and nothing done. -/
inductive Follows (c : Chain) (b : Body) :
    EStateM.Result CodeError Chain α → Except CodeError (α × Body) → Prop
  | ok {a : α} {c' : Chain} {b' : Body} : c'.Holds b'.stream → SameParts c c' →
      Body.SameParts b b' → Follows c b (.ok a c') (.ok (a, b'))
  | error {e : CodeError} : Follows c b (.error e c) (.error e)

namespace Follows

variable {r : EStateM.Result CodeError Chain α}

theorem exists_ok {a : α} (h : Follows c b r (.ok (a, b'))) :
    ∃ c', r = .ok a c' ∧ c'.Holds b'.stream ∧ SameParts c c' ∧ Body.SameParts b b' := by
  cases h with
  | ok holds parts parts' => exact ⟨_, rfl, holds, parts, parts'⟩

theorem eq_error {e : CodeError} (h : Follows c b r (.error e)) : r = .error e c := by
  cases h
  rfl

end Follows

/-! ## Calls in sequence -/

section

variable {β : Type} {call : Call α} {next : α → Call β} {a : α} {e : CodeError}

theorem bind_of_ok (h : call c = .ok a c') : (call >>= next) c = next a c' := by
  show EStateM.bind call next c = _
  rw [EStateM.bind, h]

theorem bind_of_error (h : call c = .error e c') : (call >>= next) c = .error e c' := by
  show EStateM.bind call next c = _
  rw [EStateM.bind, h]

theorem bind_modify {f : Chain → Chain} {next : PUnit → Call β} :
    ((modify f : Call PUnit) >>= next) c = next ⟨⟩ (f c) := rfl

theorem discard_of_ok (h : call c = .ok a c') : (discard call) c = .ok ⟨⟩ c' := by
  show EStateM.map _ call c = _
  rw [EStateM.map, h]

end

theorem exists_entry (h : id ∈ b.ids) : ∃ front x back, b.stream = front ++ (id, x) :: back := by
  obtain ⟨p, hp, rfl⟩ := List.mem_map.1 h
  obtain ⟨front, back, hs⟩ := List.append_of_mem hp
  exact ⟨front, p.2, back, hs⟩

/-! ## Single edits -/

theorem holds_append {stream : List (InstructionId × Instruction)} (h : c.Holds stream)
    (i : Instruction) : (c.append i).Holds (stream ++ [(c.size, i)]) := by
  have hs : (c.splice (stream.map (·.1)).getLast? none i).Holds (stream ++ [(c.size, i)]) :=
    Holds.splice (by rwa [List.append_nil]) i
  rw [append, h.last?]
  exact hs

theorem follows_pushBack (h : c.Holds b.stream) (i : Instruction) :
    Follows c b (pushBack i c) (.ok (b.pushBack i)) := by
  have hsize : c.size = b.size := h.size
  have hs := holds_append h i
  rw [hsize] at hs
  rw [pushBack, hsize]
  exact .ok hs (sameParts_splice ..) ⟨rfl, rfl⟩

theorem placeBefore_append {x : InstructionId × Instruction}
    {front back : List (InstructionId × Instruction)} (h : ∀ p ∈ front, p.1 ≠ anchor) :
    Body.placeBefore anchor x (front ++ (anchor, i) :: back) =
      front ++ x :: (anchor, i) :: back := by
  induction front with
  | nil => rw [List.nil_append, Body.placeBefore, if_pos rfl, List.nil_append]
  | cons p rest ih =>
    rw [List.cons_append, Body.placeBefore, if_neg (h p List.mem_cons_self),
      ih fun q hq => h q (List.mem_cons_of_mem _ hq), List.cons_append]

theorem follows_insertBefore (h : c.Holds b.stream) (anchor : InstructionId) (i : Instruction) :
    Follows c b (insertBefore anchor i c) (b.insertBefore anchor i) := by
  unfold insertBefore Body.insertBefore
  by_cases hid : anchor ∈ b.ids
  · obtain ⟨front, x, back, hs⟩ := exists_entry hid
    have h' := hs ▸ h
    have hsize : c.size = b.size := h.size
    rw [h'.link, if_pos (Body.contains_iff.2 hid), hsize]
    refine .ok ?_ (sameParts_splice ..) ⟨rfl, rfl⟩
    have hstream : Body.placeBefore anchor (b.size, i) b.stream =
        front ++ (b.size, i) :: (anchor, x) :: back := by
      rw [hs]
      exact placeBefore_append fun p hp => Body.ne_of_stream hs p (List.mem_append_left _ hp)
    show Holds _ (Body.placeBefore anchor (b.size, i) b.stream)
    rw [hstream, ← hsize]
    exact h'.splice i
  · rw [h.link_none hid, if_neg fun hc => hid (Body.contains_iff.1 hc)]
    exact .error

theorem follows_insertAfter (h : c.Holds b.stream) (anchor : InstructionId) (i : Instruction) :
    Follows c b (insertAfter anchor i c) (b.insertAfter anchor i) := by
  unfold insertAfter Body.insertAfter
  by_cases hid : anchor ∈ b.ids
  · obtain ⟨front, x, back, hs⟩ := exists_entry hid
    have h' := hs ▸ h
    have hsize : c.size = b.size := h.size
    rw [h'.link, if_pos (Body.contains_iff.2 hid), hsize]
    refine .ok ?_ (sameParts_splice ..) ⟨rfl, rfl⟩
    have hstream : Body.placeAfter anchor (b.size, i) b.stream =
        front ++ (anchor, x) :: (b.size, i) :: back := by
      rw [hs]
      exact Body.placeAfter_append _ fun p hp =>
        Body.ne_of_stream hs p (List.mem_append_left _ hp)
    show Holds _ (Body.placeAfter anchor (b.size, i) b.stream)
    rw [hstream, ← hsize]
    have hsplit : c.Holds ((front ++ [(anchor, x)]) ++ back) := by simpa using h'
    simpa using hsplit.splice i
  · rw [h.link_none hid, if_neg fun hc => hid (Body.contains_iff.1 hc)]
    exact .error

theorem follows_replace (h : c.Holds b.stream) (id : InstructionId) (i : Instruction) :
    Follows c b (replace id i c) (b.replace id i) := by
  unfold replace
  by_cases hid : id ∈ b.ids
  · obtain ⟨front, x, back, hs⟩ := exists_entry hid
    have h' := hs ▸ h
    obtain ⟨old, b', hok, -⟩ := Body.replace_isOk hid i
    obtain ⟨hs', hparts⟩ := Body.stream_replace hs hok
    have hold : old = x := by
      have hget : b.get? id = some x := by
        have := h'.get? id
        rw [Chain.get?, h'.link, ← hs] at this
        exact this.symm
      unfold Body.replace at hok
      rw [hget] at hok
      cases hok
      rfl
    rw [hok, h'.link, hold]
    exact .ok (hs' ▸ h'.replace i) ⟨rfl, rfl⟩ hparts
  · have hget : b.get? id = none := by
      rw [Body.get?, ← h.get?, Chain.get?, h.link_none hid]
      rfl
    unfold Body.replace
    rw [h.link_none hid, hget]
    exact .error

/-- A run of insertions fails at its first or not at all. -/
theorem follows_insertAllAfter (h : c.Holds b.stream) (anchor : InstructionId)
    (code : List Instruction) :
    Follows c b (insertAllAfter anchor code c) (b.insertAllAfter anchor code) := by
  induction code generalizing c b anchor with
  | nil => exact .ok h ⟨rfl, rfl⟩ ⟨rfl, rfl⟩
  | cons i rest ih =>
    have hfirst := follows_insertAfter h anchor i
    show Follows c b ((insertAfter anchor i >>= (insertAllAfter · rest)) c)
      (b.insertAfter anchor i >>= fun p => p.2.insertAllAfter p.1 rest)
    by_cases hid : anchor ∈ b.ids
    · obtain ⟨id, b₁, hok, hmem, -⟩ := Body.insertAfter_isOk hid i
      obtain ⟨id', b', hrest⟩ := Body.insertAllAfter_isOk rest hmem
      rw [hok] at hfirst ⊢
      obtain ⟨c₁, hc₁, h₁, hp₁, hq₁⟩ := hfirst.exists_ok
      have hnext := ih h₁ id
      rw [hrest] at hnext
      obtain ⟨c', hc', h', hp', hq'⟩ := hnext.exists_ok
      rw [ok_bind, bind_of_ok hc₁, hc', hrest]
      exact .ok h' (hp₁.trans hp') (hq₁.trans hq')
    · have herror : b.insertAfter anchor i = .error (.unknownInstruction anchor) := by
        unfold Body.insertAfter
        rw [if_neg fun hc => hid (Body.contains_iff.1 hc)]
      rw [herror] at hfirst ⊢
      rw [bind_of_error hfirst.eq_error]
      exact .error

/-! ## Guarding -/

theorem holds_pushAll {stream : List (InstructionId × Instruction)} (h : c.Holds stream)
    (code : List Instruction) : ∃ c', pushAll code c = .ok c.size c' ∧
      c'.Holds (stream ++ Body.number c.size code) ∧ SameParts c c' := by
  induction code generalizing c stream with
  | nil => exact ⟨c, rfl, by simpa [Body.number] using h, rfl, rfl⟩
  | cons i rest ih =>
    obtain ⟨c', hc', h', hp'⟩ := ih (holds_append h i)
    have hsize : (c.append i).size = c.size + 1 := size_splice ..
    refine ⟨c', ?_, ?_, (sameParts_splice ..).trans hp'⟩
    · show (pushBack i >>= fun id => discard (pushAll rest) >>= fun _ => pure id) c = _
      rw [bind_of_ok (show pushBack i c = .ok c.size (c.append i) from rfl),
        bind_of_ok (discard_of_ok hc')]
      rfl
    · rw [hsize] at h'
      simpa [Body.number] using h'

theorem leaveAtReturn_of_ok {exit : InstructionId} {result? : Option SlotId}
    (h : c.Holds b.stream) (hb : b.leaveAtReturn exit result? id = .ok b') :
    ∃ c', leaveAtReturn exit result? id c = .ok () c' ∧ c'.Holds b'.stream ∧ SameParts c c' ∧
      Body.SameParts b b' := by
  unfold Body.leaveAtReturn at hb
  unfold leaveAtReturn
  cases result? with
  | none =>
    obtain ⟨⟨old, b₁⟩, h₁, hb⟩ := bind_eq_ok.1 hb
    cases hb
    obtain ⟨c', hc', h', hp', hq'⟩ := (h₁ ▸ follows_replace h id (.leave exit)).exists_ok
    exact ⟨c', discard_of_ok hc', h', hp', hq'⟩
  | some slot =>
    obtain ⟨⟨old, b₁⟩, h₁, hb⟩ := bind_eq_ok.1 hb
    obtain ⟨⟨id', b₂⟩, h₂, hb⟩ := bind_eq_ok.1 hb
    cases hb
    obtain ⟨c₁, hc₁, h₁, hp₁, hq₁⟩ := (h₁ ▸ follows_replace h id (.stloc slot)).exists_ok
    obtain ⟨c', hc', h', hp', hq'⟩ := (h₂ ▸ follows_insertAfter h₁ id (.leave exit)).exists_ok
    refine ⟨c', ?_, h', hp₁.trans hp', hq₁.trans hq'⟩
    dsimp only
    rw [bind_of_ok (discard_of_ok hc₁), discard_of_ok hc']

theorem leaveAtReturns_of_ok {exit : InstructionId} {result? : Option SlotId}
    {ids : List InstructionId} (h : c.Holds b.stream)
    (hb : b.leaveAtReturns exit result? ids = .ok b') :
    ∃ c', leaveAtReturns exit result? ids c = .ok () c' ∧ c'.Holds b'.stream ∧
      SameParts c c' ∧ Body.SameParts b b' := by
  induction ids generalizing c b with
  | nil =>
    cases hb
    exact ⟨c, rfl, h, ⟨rfl, rfl⟩, rfl, rfl⟩
  | cons id rest ih =>
    obtain ⟨b₁, h₁, hb⟩ := bind_eq_ok.1 hb
    obtain ⟨c₁, hc₁, h₁, hp₁, hq₁⟩ := leaveAtReturn_of_ok h h₁
    obtain ⟨c', hc', h', hp', hq'⟩ := ih h₁ hb
    refine ⟨c', ?_, h', hp₁.trans hp', hq₁.trans hq'⟩
    show (leaveAtReturn exit result? id >>= fun _ => leaveAtReturns exit result? rest) c = _
    rw [bind_of_ok hc₁, hc']

theorem number_append (n : Nat) (code rest : List Instruction) :
    Body.number n (code ++ rest) = Body.number n code ++ Body.number (n + code.length) rest := by
  induction code generalizing n with
  | nil => rfl
  | cons i code ih =>
    rw [List.cons_append, Body.number, ih, Body.number, List.cons_append, List.length_cons,
      Nat.add_right_comm, Nat.add_assoc]

theorem replace_of_holds {x : Instruction} (front back : List (InstructionId × Instruction))
    (id : InstructionId) (h : c.Holds (front ++ (id, x) :: back)) (i : Instruction) :
    ∃ c', replace id i c = .ok x c' ∧ c'.Holds (front ++ (id, i) :: back) ∧ SameParts c c' := by
  unfold replace
  rw [h.link]
  exact ⟨_, rfl, h.replace i, rfl, rfl⟩

theorem epilogue_keep (g : Guard) (exit : InstructionId) (result? : Option SlotId) :
    g.epilogue exit result? =
      [.leave exit, g.keep] ++ g.onException ++ [.plain .rethrow, .leave exit] ++
        (g.onReturn ++ (result?.map Instruction.ldloc).toList ++ [.plain .ret]) := by
  cases h : g.exception? <;> simp [Guard.epilogue, Guard.keep, h]

/-- The entries of an epilogue that is appended at `n`. -/
theorem number_epilogue (n : Nat) (g : Guard) (exit : InstructionId) (result? : Option SlotId) :
    Body.number n (g.epilogue exit result?) =
      (n, .leave exit) :: (n + 1, g.keep) :: (Body.number (n + 2) g.onException ++
        (n + 2 + g.onException.length, .plain .rethrow) ::
        (n + 3 + g.onException.length, .leave exit) ::
        Body.number (n + 4 + g.onException.length)
          (g.onReturn ++ (result?.map Instruction.ldloc).toList ++ [.plain .ret])) := by
  have hafter : n + 2 + g.onException.length + 1 = n + 3 + g.onException.length := by omega
  have hexit : n + 3 + g.onException.length + 1 = n + 4 + g.onException.length := by omega
  rw [epilogue_keep, List.append_assoc, List.append_assoc]
  show (n, _) :: (n + 1, _) :: Body.number (n + 2) (g.onException ++ (_ :: _ :: _)) = _
  rw [number_append, Body.number, Body.number, hafter, hexit]
  rfl

/-- With the exit in place of the `nop`s, the code is the epilogue. -/
theorem appendEpilogue_eq (h : c.Holds b.stream) (g : Guard) (result? : Option SlotId) :
    ∃ c', appendEpilogue g result? c =
        .ok (b.size + 1, b.size + 4 + g.onException.length) c' ∧
      c'.Holds (b.appendAll (g.epilogue (b.size + 4 + g.onException.length) result?)).stream ∧
      c'.locals = c.locals ∧ c'.handlers = c.handlers.map (·.close b.size) := by
  let n := b.size
  let k := g.onException.length
  let exitCode := g.onReturn ++ (result?.map Instruction.ldloc).toList ++ [.plain .ret]
  have hn : c.size = n := h.size
  -- The code is appended with a `nop` in two places.
  have h₁ := holds_append h (.plain .nop)
  let c₂ : Chain := { c.append (.plain .nop) with
    handlers := (c.append (.plain .nop)).handlers.map (·.close n) }
  have h₂ : c₂.Holds (b.stream ++ [(c.size, .plain .nop)]) :=
    ⟨h₁.size, h₁.ids, h₁.get?, h₁.next?, h₁.prev?, h₁.first?, h₁.last?⟩
  have hs₂ : c₂.size = n + 1 := hn ▸ size_splice ..
  have h₃ := holds_append h₂ g.keep
  have hs₃ : (c₂.append g.keep).size = n + 2 := by rw [append, size_splice, hs₂]
  obtain ⟨c₄, hc₄, h₄, hp₄⟩ := holds_pushAll h₃ g.onException
  have hs₄ : c₄.size = n + 2 + k := by
    rw [h₄.size, List.length_append, Body.length_number, ← h₃.size, hs₃]
  have h₅ := holds_append h₄ (.plain .rethrow)
  have hs₅ : (c₄.append (.plain .rethrow)).size = n + 3 + k := by
    rw [append, size_splice, hs₄]
    omega
  have h₆ := holds_append h₅ (.plain .nop)
  have hs₆ : ((c₄.append (.plain .rethrow)).append (.plain .nop)).size = n + 4 + k := by
    rw [append, size_splice, hs₅]
    omega
  obtain ⟨c₇, hc₇, h₇, hp₇⟩ := holds_pushAll h₆ exitCode
  rw [hn, hs₂, hs₃, hs₄, hs₅, hs₆] at h₇
  -- Now the exit has its id, and the leaves go where the `nop`s are.
  let exit := n + 4 + k
  obtain ⟨c₈, hc₈, h₈, hp₈⟩ := replace_of_holds b.stream
    ((n + 1, g.keep) :: (Body.number (n + 2) g.onException ++ (n + 2 + k, .plain .rethrow) ::
      (n + 3 + k, .plain .nop) :: Body.number (n + 4 + k) exitCode))
    n (by simpa using h₇) (.leave exit)
  obtain ⟨c₉, hc₉, h₉, hp₉⟩ := replace_of_holds
    (b.stream ++ (n, .leave exit) :: (n + 1, g.keep) ::
      (Body.number (n + 2) g.onException ++ [(n + 2 + k, .plain .rethrow)]))
    (Body.number (n + 4 + k) exitCode) (n + 3 + k) (by simpa using h₈) (.leave exit)
  have hparts : c₉.locals = c.locals ∧ c₉.handlers = c.handlers.map (·.close n) := by
    have hlocals := ((hp₇.trans hp₈).trans hp₉).locals
    have hhandlers := ((hp₇.trans hp₈).trans hp₉).handlers
    have h₁₂ : SameParts c (c.append (.plain .nop)) := sameParts_splice ..
    have h₂₆ : SameParts c₂ ((c₄.append (.plain .rethrow)).append (.plain .nop)) :=
      (((show SameParts c₂ (c₂.append g.keep) from sameParts_splice ..).trans hp₄).trans
        (sameParts_splice ..)).trans (sameParts_splice ..)
    rw [hlocals, hhandlers, h₂₆.locals, h₂₆.handlers]
    exact ⟨h₁₂.locals, congrArg (List.map _) h₁₂.handlers⟩
  refine ⟨c₉, ?_, ?_, hparts⟩
  · unfold appendEpilogue
    rw [bind_of_ok (show pushBack (.plain .nop) c = .ok n _ by rw [pushBack, hn]),
      bind_modify,
      bind_of_ok (show pushBack g.keep _ = .ok (n + 1) _ by rw [pushBack, hs₂]),
      bind_of_ok (discard_of_ok hc₄),
      bind_of_ok (discard_of_ok (show pushBack (.plain .rethrow) c₄ = .ok _ _ from rfl)),
      bind_of_ok (show pushBack (.plain .nop) _ = .ok (n + 3 + k) _ by rw [pushBack, hs₅]),
      bind_of_ok hc₇, hs₆, bind_of_ok (discard_of_ok hc₈), bind_of_ok (discard_of_ok hc₉)]
    rfl
  · rw [(Body.stream_appendAll _).1]
    show c₉.Holds (b.stream ++ Body.number n (g.epilogue exit result?))
    rw [number_epilogue]
    simp only [List.append_assoc, List.cons_append, List.nil_append] at h₉
    exact h₉

/-! ## The body a chain stores -/

/-- A chain with the entries, slots and handlers of a body. -/
structure Stores (c : Chain) (b : Body) : Prop where
  holds : c.Holds b.stream
  locals : c.locals = b.locals
  handlers : c.handlers = b.handlers

/-- A call ends on a chain as on the body it stores: with the same answer, and the chain
stores the new body, or with the same error, and the chain stores the body still. -/
inductive Agrees (b : Body) :
    EStateM.Result CodeError Chain α → Except CodeError (α × Body) → Prop
  | ok {a : α} {c' : Chain} {b' : Body} : c'.Stores b' → Agrees b (.ok a c') (.ok (a, b'))
  | error {e : CodeError} {c' : Chain} : c'.Stores b → Agrees b (.error e c') (.error e)

theorem Stores.agrees {r : EStateM.Result CodeError Chain α} {r' : Except CodeError (α × Body)}
    (h : c.Stores b) (hf : Follows c b r r') : Agrees b r r' := by
  cases hf with
  | ok holds parts parts' =>
    exact .ok ⟨holds, parts.locals.trans (h.locals.trans parts'.locals.symm),
      parts.handlers.trans (h.handlers.trans parts'.handlers.symm)⟩
  | error => exact .error h

/-- What is left after a call is what the body's call leaves. -/
theorem Agrees.stores_after {call : Call α} {r' : Except CodeError (α × Body)}
    (h : Agrees b (call c) r') : (c.after call).Stores (b.after r') := by
  unfold after
  generalize call c = r at h
  cases h with
  | ok hs => exact hs
  | error hs => exact hs

theorem agrees_addSlot (h : c.Stores b) (s : Slot) : Agrees b (addSlot s c) (b.addSlot s) := by
  have hsize : c.locals.size = b.locals.size := by rw [h.locals]
  unfold addSlot Body.addSlot
  dsimp only
  rw [hsize]
  split
  · exact .ok ⟨⟨h.holds.size, h.holds.ids, h.holds.get?, h.holds.next?, h.holds.prev?,
      h.holds.first?, h.holds.last?⟩, congrArg (·.push s) h.locals, h.handlers⟩
  · exact .error h

theorem agrees_declareResult (h : c.Stores b) (returnType : Ty) :
    Agrees b (declareResult returnType c) (Guard.declareResult b returnType) := by
  unfold declareResult Guard.declareResult
  split
  · exact .ok h
  · have hslot := agrees_addSlot h ⟨returnType, some "<>result", true⟩
    show Agrees b ((addSlot ⟨returnType, some "<>result", true⟩ >>= fun slot => pure (some slot)) c)
      (b.addSlot ⟨returnType, some "<>result", true⟩ >>= fun p => pure (some p.1, p.2))
    generalize hc : addSlot ⟨returnType, some "<>result", true⟩ c = r at hslot
    generalize hb : b.addSlot ⟨returnType, some "<>result", true⟩ = r' at hslot
    cases hslot with
    | ok hs =>
      rw [bind_of_ok hc]
      exact .ok hs
    | error hs =>
      rw [bind_of_error hc]
      exact .error hs

/-- A guard fails only for want of a slot, before it has changed anything. -/
theorem agrees_wrap (h : c.Stores b) (g : Guard) (start : InstructionId) (returnType : Ty) :
    Agrees b (wrap g start returnType c) (g.wrap b start returnType) := by
  have hreturns : c.returns = b.returns := by
    rw [Chain.returns, h.holds.stream_eq]
    rfl
  have hdeclare := agrees_declareResult h returnType
  unfold wrap Guard.wrap
  show Agrees b ((declareResult returnType >>= _) c) _
  generalize hc : declareResult returnType c = r at hdeclare
  generalize hb : Guard.declareResult b returnType = r' at hdeclare
  cases hdeclare with
  | error hs =>
    rw [bind_of_error hc]
    exact .error hs
  | @ok result? c₁ b₁ hs =>
    rw [bind_of_ok hc, ok_bind]
    obtain ⟨c₂, hc₂, h₂, hl₂, hh₂⟩ := appendEpilogue_eq hs.holds g result?
    rw [bind_of_ok hc₂]
    dsimp only
    let exit := b₁.size + 4 + g.onException.length
    obtain ⟨b₃, h₃⟩ := Guard.leaveAtReturns_appended_isOk hb (g.epilogue exit result?) exit
    obtain ⟨c₃, hc₃, hs₃, hp₃, hq₃⟩ := leaveAtReturns_of_ok h₂ h₃
    rw [bind_of_ok (hreturns ▸ hc₃), h₃, ok_bind, ← hreturns]
    refine .ok ⟨⟨hs₃.size, hs₃.ids, hs₃.get?, hs₃.next?, hs₃.prev?, hs₃.first?, hs₃.last?⟩, ?_, ?_⟩
    · show c₃.locals = b₃.locals
      rw [hp₃.locals, hl₂, hs.locals, hq₃.locals, (Body.stream_appendAll _).2.locals]
    · show c₃.handlers ++ _ = _
      rw [hp₃.handlers, hh₂, hs.handlers]

/-! ## Sequences of edits -/

theorem stores_edit (h : c.Stores b) (e : Edit) : (c.edit e).Stores (b.edit e) := by
  cases e with
  | pushBack i => exact (h.agrees (follows_pushBack h.holds i)).stores_after
  | insertBefore anchor i => exact (h.agrees (follows_insertBefore h.holds anchor i)).stores_after
  | insertAfter anchor i => exact (h.agrees (follows_insertAfter h.holds anchor i)).stores_after
  | insertAllAfter anchor code =>
    exact (h.agrees (follows_insertAllAfter h.holds anchor code)).stores_after
  | replace id i => exact (h.agrees (follows_replace h.holds id i)).stores_after
  | addVariable ty => exact (agrees_addSlot h ⟨ty, none, false⟩).stores_after
  | addSynthetic ty name => exact (agrees_addSlot h ⟨ty, some name, true⟩).stores_after
  | wrap g start returnType => exact (agrees_wrap h g start returnType).stores_after

theorem stores_edits (h : c.Stores b) (edits : List Edit) :
    (edits.foldl edit c).Stores (edits.foldl Body.edit b) := by
  induction edits generalizing c b with
  | nil => exact h
  | cons e rest ih => exact ih (stores_edit h e)

theorem holds_ofList (code : List Instruction) :
    (ofList code).Holds (Body.number 0 code) ∧ SameParts {} (ofList code) := by
  have appended (c : Chain) (stream : List (InstructionId × Instruction)) (h : c.Holds stream)
      (code : List Instruction) :
      (code.foldl append c).Holds (stream ++ Body.number c.size code) ∧
        SameParts c (code.foldl append c) := by
    induction code generalizing c stream with
    | nil => exact ⟨by simpa [Body.number] using h, rfl, rfl⟩
    | cons i rest ih =>
      obtain ⟨hrest, hparts⟩ := ih _ _ (holds_append h i)
      rw [show (c.append i).size = c.size + 1 from size_splice ..] at hrest
      exact ⟨by simpa [Body.number] using hrest, (sameParts_splice ..).trans hparts⟩
  exact appended {} [] holds_empty code

/-- The chains that are made without editing, each with the body it stores. -/
inductive Made : Chain → Body → Prop
  | empty : Made {} .empty
  | ofList (code : List Instruction) : Made (ofList code) (.ofList code)
  | load {l : LabelledBody} {c : Chain} {b : Body} :
      l.load = .ok c → l.decode = .ok b → Made c b

theorem Made.stores (h : Made c b) : c.Stores b := by
  cases h with
  | empty => exact ⟨holds_empty, rfl, rfl⟩
  | ofList code =>
    obtain ⟨holds, parts⟩ := holds_ofList code
    exact ⟨holds, parts.locals, parts.handlers⟩
  | @load l c b hc hb =>
    have hload : l.load = .ok { Chain.ofList b.code with
        locals := b.locals, handlers := b.handlers } :=
      bind_eq_ok.2 ⟨b, hb, rfl⟩
    obtain rfl := Except.ok.inj (hload.symm.trans hc)
    have hstream : b.stream = Body.number 0 b.code := by
      obtain ⟨-, -, rfl⟩ := LabelledBody.decode_eq_ok_iff.1 hb
      rw [LabelledBody.indexed, Body.code_ofParts]
      rfl
    have holds := (holds_ofList b.code).1
    exact ⟨hstream ▸ ⟨holds.size, holds.ids, holds.get?, holds.next?, holds.prev?, holds.first?,
      holds.last?⟩, rfl, rfl⟩

/-- However a chain is made and edited, also by calls that fail, its links run both ways
through all its ids, and they are the neighbours in the edited body. -/
theorem threaded_edits (h : Made c b) (edits : List Edit) :
    (edits.foldl edit c).Threaded ∧
      (edits.foldl edit c).stream = (edits.foldl Body.edit b).stream ∧
      (edits.foldl edit c).first? = (edits.foldl Body.edit b).first? ∧
      (edits.foldl edit c).last? = (edits.foldl Body.edit b).last? ∧
      (edits.foldl edit c).next? = (edits.foldl Body.edit b).next? ∧
      (edits.foldl edit c).prev? = (edits.foldl Body.edit b).prev? := by
  have hs := (stores_edits h.stores edits).holds
  exact ⟨hs.threaded, hs.stream_eq, hs.first?, hs.last?, funext hs.next?, funext hs.prev?⟩

/-- A loop, its labels not in order. -/
def loop : LabelledBody where
  code := [(7, .plain .nop), (3, ⟨.br, .target 7⟩), (9, .plain .ret)]

/-- Edits of a body of three instructions. The first two fail. -/
def patch : List Edit :=
  [.insertBefore 5 (.plain .nop), .replace 3 (.plain .ret), .insertBefore 0 (.plain .nop),
    .insertAllAfter 1 [.plain .nop, .plain .nop], .wrap {} 3 .void]

theorem threaded_patched_loop : ∃ c b, loop.load = .ok c ∧ loop.decode = .ok b ∧
    (patch.foldl edit c).ids = [3, 0, 1, 4, 5, 2, 6, 7, 8, 9, 10] ∧
    (patch.foldl edit c).Threaded ∧
    (patch.foldl edit c).stream = (patch.foldl Body.edit b).stream := by
  refine ⟨_, _, rfl, rfl, by decide +kernel, ?_⟩
  have h := threaded_edits (.load (l := loop) rfl rfl) patch
  exact ⟨h.1, h.2.1⟩

end Chain

end Interpose
