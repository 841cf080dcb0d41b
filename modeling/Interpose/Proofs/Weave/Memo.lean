import Interpose.Proofs.Weave.Wanted
/-!
# The memory of a resolver

A resolver that remembers its answers gives the answers, and leaves the module, of one that
searches and imports on every call. What it searches for does not depend on what it imports,
and an id that it has given stays the id of its member, so no answer goes stale.

Results:
* `resolve_eq_search`: one call, wherever the resolver has come to.
* `serve_eq_plain`: a sequence of calls.
* `reply_eq_iff`: which calls get the same answer.
* `growth_le_one`: what the calls for one descriptor import.
-/
namespace Interpose

/-- A call of a resolver. -/
inductive Query
  | resolve (d : Descriptor)
  | find (d : Descriptor)

/-- What a resolver answers. -/
inductive Reply
  | id (id? : Option MemberId)
  | member (member? : Option MemberRef)
deriving DecidableEq

/-- The replies to a sequence of calls, and the state they leave. -/
def serve {σ : Type} (ask : σ → Query → Reply × σ) (s : σ) : List Query → List Reply × σ
  | [] => ([], s)
  | q :: rest =>
    let (reply, s') := ask s q
    let (replies, s'') := serve ask s' rest
    (reply :: replies, s'')

namespace Module

/-- Looks a descriptor up and imports what it names, without a memory. -/
def search (m : Module) (d : Descriptor) : Option MemberId × Module :=
  match m.lookup d with
  | none => (none, m)
  | some member => (some (m.imports.add member).1, { m with imports := (m.imports.add member).2 })

def ask (m : Module) : Query → Reply × Module
  | .resolve d => (.id (m.search d).1, (m.search d).2)
  | .find d => (.member (m.lookup d), m)

end Module

namespace Resolver

def ask (r : Resolver) : Query → Reply × Resolver
  | .resolve d => (.id (r.resolve d).1, (r.resolve d).2)
  | .find d => (.member (r.find? d), r)

variable {m : Module} {r : Resolver} {qs : List Query} {d e : Descriptor}

/-! ## One call -/

/-- Where a resolver has come to, it answers as if it had no memory. -/
theorem resolve_eq_search (h : r.Faithful m) (d : Descriptor) :
    (r.resolve d).1 = (r.module.search d).1 ∧
      (r.resolve d).2.module = (r.module.search d).2 := by
  obtain ⟨hfaithful, himports, hfinds⟩ := imports_resolve h d
  have hmodule : (r.resolve d).2.module =
      { r.module with imports := r.module.imports.addAll (m.lookup d).toList } := by
    rw [hfaithful.module, himports, h.module]
  rw [himports] at hfinds
  rw [hmodule, Module.search, h.lookup]
  cases hd : m.lookup d with
  | none =>
    rw [hd] at hfinds
    exact ⟨hfinds.unique .none, rfl⟩
  | some member =>
    rw [hd] at hfinds
    exact ⟨hfinds.unique (.some (r.module.imports.find?_add member)), rfl⟩

theorem ask_eq_plain (h : r.Faithful m) (q : Query) :
    (r.ask q).1 = (r.module.ask q).1 ∧ (r.ask q).2.module = (r.module.ask q).2 := by
  cases q with
  | resolve d =>
    obtain ⟨hid, hmodule⟩ := resolve_eq_search h d
    exact ⟨congrArg Reply.id hid, hmodule⟩
  | find d => exact ⟨rfl, rfl⟩

theorem faithful_ask (h : r.Faithful m) (q : Query) : (r.ask q).2.Faithful m := by
  cases q with
  | resolve d => exact (imports_resolve h d).faithful
  | find d => exact h

theorem extends_ask (h : r.Faithful m) (q : Query) :
    (r.ask q).2.module.imports.Extends r.module.imports := by
  cases q with
  | resolve d => exact (imports_resolve h d).extends
  | find d => exact .refl _

/-- A call that finds nothing imports nothing. -/
theorem module_of_miss (h : r.Faithful m) (hmiss : (r.resolve d).1 = none) :
    (r.resolve d).2.module = r.module := by
  obtain ⟨hid, hmodule⟩ := resolve_eq_search h d
  rw [hmodule]
  rw [hmiss, Module.search] at hid
  rw [Module.search]
  cases hd : r.module.lookup d with
  | none => rfl
  | some member =>
    rw [hd] at hid
    cases hid

/-! ## A sequence of calls -/

theorem serve_faithful (h : r.Faithful m) (qs : List Query) : (serve ask r qs).2.Faithful m := by
  induction qs generalizing r with
  | nil => exact h
  | cons q rest ih => exact ih (faithful_ask h q)

theorem extends_serve (h : r.Faithful m) (qs : List Query) :
    (serve ask r qs).2.module.imports.Extends r.module.imports := by
  induction qs generalizing r with
  | nil => exact .refl _
  | cons q rest ih => exact (ih (faithful_ask h q)).trans (extends_ask h q)

theorem serve_eq_plain (h : r.Faithful m) (qs : List Query) :
    (serve ask r qs).1 = (serve Module.ask r.module qs).1 ∧
      (serve ask r qs).2.module = (serve Module.ask r.module qs).2 := by
  induction qs generalizing r with
  | nil => exact ⟨rfl, rfl⟩
  | cons q rest ih =>
    obtain ⟨hreply, hmodule⟩ := ask_eq_plain h q
    obtain ⟨hreplies, hfinal⟩ := ih (faithful_ask h q)
    rw [hmodule] at hreplies hfinal
    exact ⟨congrArg₂ List.cons hreply hreplies, hfinal⟩

/-- The id that a call gives is still that of its member in the end. -/
theorem exists_reply (h : r.Faithful m) {i : Nat} (hq : qs[i]? = some (.resolve d)) :
    ∃ id?, (serve ask r qs).1[i]? = some (.id id?) ∧
      (serve ask r qs).2.module.imports.Finds (m.lookup d) id? := by
  induction qs generalizing r i with
  | nil => cases hq
  | cons q rest ih =>
    cases i with
    | zero =>
      obtain rfl : q = .resolve d := Option.some.inj hq
      exact ⟨_, rfl, (imports_resolve h d).finds.mono
        (extends_serve (imports_resolve h d).faithful rest)⟩
    | succ i => exact ih (faithful_ask h q) hq

/-- Two calls get the same answer if, and only if, their descriptors name the same member or
both name none. -/
theorem reply_eq_iff (h : r.Faithful m) {i j : Nat} (hi : qs[i]? = some (.resolve d))
    (hj : qs[j]? = some (.resolve e)) :
    (serve ask r qs).1[i]? = (serve ask r qs).1[j]? ↔ m.lookup d = m.lookup e := by
  obtain ⟨id?, hid, hfinds⟩ := exists_reply h hi
  obtain ⟨id?', hid', hfinds'⟩ := exists_reply h hj
  rw [hid, hid', Option.some.injEq, Reply.id.injEq]
  constructor
  · rintro rfl
    exact hfinds.member_unique hfinds'
  · intro he
    exact hfinds.unique (he ▸ hfinds')

/-! ## What is imported -/

/-- The entries that the calls for a descriptor append. -/
def growth (d : Descriptor) (r : Resolver) : List Query → Nat
  | [] => 0
  | .find _ :: rest => growth d r rest
  | .resolve e :: rest =>
    (if e = d then (r.resolve e).2.module.imports.size - r.module.imports.size else 0) +
      growth d (r.resolve e).2 rest

/-- What is there already is not appended. -/
theorem growth_eq_zero (h : r.Faithful m)
    (hd : ∀ member, m.lookup d = some member → member ∈ r.module.imports.entries) :
    growth d r qs = 0 := by
  induction qs generalizing r with
  | nil => rfl
  | cons q rest ih =>
    cases q with
    | find e => exact ih h hd
    | resolve e =>
      obtain ⟨hfaithful, himports, -⟩ := imports_resolve h e
      have hext := (imports_resolve h e).extends
      rw [growth, ih hfaithful fun member hm => hext.subset (hd member hm)]
      split
      · next he =>
        subst he
        rw [himports, ImportTable.addAll_eq_self fun member hm => hd member (by simpa using hm),
          Nat.sub_self]
      · rfl

theorem growth_le_one (h : r.Faithful m) (d : Descriptor) (qs : List Query) :
    growth d r qs ≤ 1 := by
  induction qs generalizing r with
  | nil => exact Nat.zero_le 1
  | cons q rest ih =>
    cases q with
    | find e => exact ih h
    | resolve e =>
      obtain ⟨hfaithful, himports, hfinds⟩ := imports_resolve h e
      rw [growth]
      split
      · next he =>
        subst he
        -- the first call imports the member, so no later one does
        have hthere : ∀ member, m.lookup e = some member →
            member ∈ (r.resolve e).2.module.imports.entries := fun member hm => by
          rw [himports, hm]
          exact ImportTable.mem_addAll List.mem_cons_self _
        rw [growth_eq_zero hfaithful hthere, himports]
        cases m.lookup e with
        | none => simp
        | some member =>
          rcases r.module.imports.add_cases member with ⟨-, hsame⟩ | ⟨-, hgrown⟩
          · simp [hsame]
          · simp [ImportTable.size, hgrown]
      · have := ih hfaithful
        omega

/-- A resolver that remembers cannot be told from one that does not: the replies are the same,
and so is the module, then and at any later call. The calls for one descriptor append one
entry at most; calls get the same answer if their descriptors name the same member or none;
and the module stays as it is where a member is only found, or not found at all. -/
theorem memory_unobservable (m : Module) (qs : List Query) :
    let r := (serve ask ⟨m, []⟩ qs).2
    (serve ask ⟨m, []⟩ qs).1 = (serve Module.ask m qs).1 ∧
    r.module = (serve Module.ask m qs).2 ∧
    (∀ d, (r.resolve d).1 = (r.module.search d).1 ∧
      (r.resolve d).2.module = (r.module.search d).2) ∧
    (∀ d, growth d ⟨m, []⟩ qs ≤ 1) ∧
    (∀ (i j : Nat) (d e : Descriptor), qs[i]? = some (.resolve d) → qs[j]? = some (.resolve e) →
      ((serve ask ⟨m, []⟩ qs).1[i]? = (serve ask ⟨m, []⟩ qs).1[j]? ↔ m.lookup d = m.lookup e)) ∧
    (∀ d, (r.ask (.find d)).2 = r) ∧
    ∀ d, (r.resolve d).1 = none → (r.resolve d).2.module = r.module := by
  have hstart := faithful_start m
  have hfaithful := serve_faithful hstart qs
  obtain ⟨hreplies, hmodule⟩ := serve_eq_plain hstart qs
  refine ⟨hreplies, hmodule, resolve_eq_search hfaithful, fun d => growth_le_one hstart d qs,
    fun i j d e => reply_eq_iff hstart, fun d => rfl, fun d => module_of_miss hfaithful⟩

/-- A module that can print a line. -/
def printer : Module where
  name := "App"
  references := [⟨"System.Runtime",
    [⟨"System.Console", [⟨"WriteLine", [.string], .void, true⟩]⟩]⟩]

/-- Two descriptors of one method get one id. -/
theorem memory_unobservable_printer :
    let d : Descriptor := ⟨"System.Console", "WriteLine", 1, none⟩
    let e : Descriptor := .exact "System.Console" "WriteLine" [.string]
    let replies := (serve ask ⟨printer, []⟩ [.resolve d, .find e, .resolve e]).1
    d ≠ e ∧ printer.lookup d = printer.lookup e ∧ replies[0]? = replies[2]? := by
  intro d e replies
  have hsame : printer.lookup d = printer.lookup e := by decide
  obtain ⟨-, -, -, -, hshared, -⟩ :=
    memory_unobservable printer [.resolve d, .find e, .resolve e]
  exact ⟨by decide, hsame, (hshared 0 2 d e rfl rfl).2 hsame⟩

end Resolver

end Interpose
