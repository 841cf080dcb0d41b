import Interpose.Proofs.Verify.Balance
import Interpose.Proofs.Weave.Heights
import Interpose.Proofs.Weave.Moved
/-!
# Depths of a woven body

From the depths that the verifier found in a body those of its woven form can be told: the
original instructions keep theirs, and along each stretch that weaving added they follow
from where it starts. So the woven body verifies, and its greatest depth is that of the
original one, or one that the added code needs.

Results:
* `told_unique`, `told_step`: the depths that are told agree, and no check fails on them.
* `expects_of_fits`: they are all that a walk over the woven body finds.
* `verifyBody_of_fits`: the woven body verifies, with bounds on its greatest depth.
-/
namespace Interpose

theorem le_max (a b : UInt16) : a ≤ max a b ∧ b ≤ max a b := by
  simp only [UInt16.le_iff_toNat_le, Walk.toNat_max]
  omega

namespace Layout

variable (L : Layout)

/-- The code before the first original instruction. -/
def entrance : List Instruction := .plain .nop :: L.prologue

/-- The code of the handler up to the instruction that raises the exception again. -/
def rescue : List Instruction := L.keep :: L.guard.onException

/-- The code of the exit up to the return. -/
def departure : List Instruction := L.guard.onReturn ++ (L.result?.map Instruction.ldloc).toList

/-- What weaving added passes the checks of the verifier, each part on its own. -/
structure Fits (c : VerifyContext) : Prop where
  prologue : Carries c.method c.body c.imports 4 0 L.prologue 0
  onException : Carries c.method c.body c.imports 4 0 L.guard.onException 0
  onReturn : Carries c.method c.body c.imports 4 0 L.guard.onReturn 0
  result : L.result?.isSome = !c.method.returnType.isVoid
  resultSlot : ∀ slot, L.result? = some slot → slot.toNat < c.body.locals.size
  exceptionSlot : ∀ slot, L.guard.exception? = some slot → slot.toNat < c.body.locals.size

/-- The depth in the place of an original instruction, by the depths that the walk `w` over
the original body has found: at its own position, and between a stored result and the leave
behind it. -/
inductive Inside (c : VerifyContext) (w : Walk) (pos : Nat) (e : UInt16) : Prop
  | original {p : Nat} (hpos : pos = L.shift p) (hd : w.depth? p = some e)
  | stored {p : Nat} {i : Instruction} (hpos : pos = L.shift p + 1) (hi : c.code[p]? = some i)
    (hr : i.opcode = .ret) (hs : L.result?.isSome = true) (he : e = 0)

/-- The depths of the woven body, part by part. -/
inductive Told (c c' : VerifyContext) (w : Walk) (pos : Nat) (e : UInt16) : Prop
  | entrance (hlt : pos < L.shift 0) (h : Along c' 4 0 0 L.entrance pos e)
  | inside (hge : L.shift 0 ≤ pos) (hlt : pos < L.shift L.body.size) (h : L.Inside c w pos e)
  | rescue (h : Along c' 4 (L.shift L.body.size + 1) 1 L.rescue pos e)
  | departure (h : Along c' 4 L.exitPos 0 L.departure pos e)

variable {L} {c c' : VerifyContext} {w : Walk} {pos : Nat} {e : UInt16}

namespace Fits

variable (hf : L.Fits c)
include hf

theorem carries_entrance : Carries c.method c.body c.imports 4 0 L.entrance 0 :=
  .cons rfl rfl rfl (by decide) rfl (by decide) hf.prologue

theorem carries_rescue : Carries c.method c.body c.imports 4 1 L.rescue 0 := by
  have hkeep : Carries c.method c.body c.imports 4 1 [L.keep] 0 := by
    unfold keep
    cases he : L.guard.exception? with
    | none => exact .cons rfl rfl rfl (by decide) rfl (by decide) (.nil 0)
    | some slot =>
      exact .cons rfl (checkOperand_slot rfl (hf.exceptionSlot slot he)) rfl (by decide) rfl
        (by decide) (.nil 0)
  exact hkeep.append hf.onException

theorem carries_departure : Carries c.method c.body c.imports 4 0 L.departure
    (if c.method.returnType.isVoid then 0 else 1) := by
  refine hf.onReturn.append ?_
  have hresult := hf.result
  cases hs : L.result? with
  | none =>
    rw [hs, Option.isSome_none] at hresult
    rw [if_pos (by simpa using hresult)]
    exact .nil 0
  | some slot =>
    rw [hs, Option.isSome_some] at hresult
    rw [if_neg (by simpa using hresult)]
    exact carries_ldloc (hf.resultSlot slot hs) rfl (by decide)

end Fits

theorem length_entrance (L : Layout) : L.entrance.length = L.shift 0 := by
  rw [L.shift_zero, L.length_front, entrance, List.length_cons, Nat.add_comm]

theorem rethrowPos_eq (L : Layout) :
    L.rethrowPos = L.shift L.body.size + 1 + L.rescue.length := by
  rw [rescue, List.length_cons, rethrowPos]
  omega

theorem exitPos_eq (L : Layout) : L.exitPos = L.rethrowPos + 2 := by
  rw [exitPos, rethrowPos]
  omega

theorem shift_inj (L : Layout) {p q : Nat} (h : L.shift p = L.shift q) : p = q := by
  have hle := L.monotone_shift.le_iff (p := p) (q := q)
  have hge := L.monotone_shift.le_iff (p := q) (q := p)
  omega

namespace Moves

variable (h : L.Moves c c')
include h

/-- The place of a return takes two positions if there is a result. -/
theorem shift_stored {p : Nat} {i : Instruction} (hi : c.code[p]? = some i)
    (hr : i.opcode = .ret) (hs : L.result?.isSome = true) :
    L.shift (p + 1) = L.shift p + 2 := by
  rw [L.shift_succ (h.code_eq p ▸ hi), growth, if_pos hr, if_pos hs]

theorem inside_unique {f : UInt16} (ha : L.Inside c w pos e) (hb : L.Inside c w pos f) :
    e = f := by
  -- a position behind a stored result is no other instruction's place
  have apart {p q : Nat} {i : Instruction} (hi : c.code[p]? = some i) (hr : i.opcode = .ret)
      (hs : L.result?.isSome = true) (he : L.shift q = L.shift p + 1) : False := by
    have hnext := h.shift_stored hi hr hs
    have hbefore := L.monotone_shift.lt_iff (p := q) (q := p + 1)
    have hbehind := L.monotone_shift.lt_iff (p := p) (q := q)
    omega
  cases ha with
  | original hpos hd =>
    cases hb with
    | original hpos' hd' =>
      obtain rfl := L.shift_inj (hpos.symm.trans hpos')
      exact Option.some.inj (hd.symm.trans hd')
    | stored hpos' hi hr hs => exact (apart hi hr hs (hpos.symm.trans hpos')).elim
  | stored hpos hi hr hs he =>
    cases hb with
    | original hpos' => exact (apart hi hr hs (hpos'.symm.trans hpos)).elim
    | stored _ _ _ _ he' => rw [he, he']

/-- The depths that are told agree. -/
theorem told_unique {f : UInt16} (ha : L.Told c c' w pos e) (hb : L.Told c c' w pos f) :
    e = f := by
  have hfirst := L.monotone_shift.le_iff.2 (Nat.zero_le L.body.size)
  have hexit := L.exitPos_eq
  have hrethrow := L.rethrowPos_eq
  cases ha with
  | entrance hlt ha =>
    cases hb with
    | entrance _ hb => exact ha.unique hb
    | inside => omega
    | rescue hb | departure hb => have := hb.le; omega
  | inside hge hlt ha =>
    cases hb with
    | inside _ _ hb => exact h.inside_unique ha hb
    | entrance => omega
    | rescue hb | departure hb => have := hb.le; omega
  | rescue ha =>
    have hle := ha.le
    cases hb with
    | rescue hb => exact ha.unique hb
    | entrance | inside => omega
    | departure hb => have := hb.le; omega
  | departure ha =>
    have hle := ha.le
    cases hb with
    | departure hb => exact ha.unique hb
    | entrance | inside => omega
    | rescue hb => have := hb.le; omega

/-! ## What visits find -/

/-- A leave for the exit, with an empty stack. -/
theorem checked_leave (hcode : c'.code[pos]? = some (.leave L.exit)) :
    Walk.Checked c' pos 0 (.leave L.exit) 0 0 [(L.exitPos, 0)] :=
  ⟨hcode, rfl, rfl, by decide, .leave rfl h.target?_exit⟩

omit h in
theorem told_exit (c c' : VerifyContext) (w : Walk) : L.Told c c' w L.exitPos 0 :=
  .departure (.first c' 4 L.exitPos 0 L.departure)

variable (hs : Walk.Sound c w)
include hs

theorem told_original {p : Nat} (hd : w.depth? p = some e) : L.Told c c' w (L.shift p) e := by
  have hp := Walk.lt_of_depth? hd
  rw [hs.size, h.formed.size, h.body] at hp
  exact .inside (L.monotone_shift.le_iff.2 (Nat.zero_le p)) (L.monotone_shift p _ hp)
    (.original rfl hd)

theorem entrance_step (hf : L.Fits c') (hlt : pos < L.shift 0)
    (ha : Along c' 4 0 0 L.entrance pos e) :
    ∃ i p q l, Walk.Checked c' pos e i p q l ∧ e - p + q ≤ 4 ∧ ∀ t ∈ l, L.Told c c' w t.1 t.2 := by
  have hlen := L.length_entrance
  have hsize := h.shift_lt_size (Nat.zero_le _)
  obtain ⟨i, p, q, hck, hle, hnext⟩ :=
    ha.checked hf.carries_entrance h.codeAt_front (by omega) (by omega)
  refine ⟨i, p, q, _, hck, hle, fun t ht => ?_⟩
  obtain rfl := List.mem_singleton.1 ht
  rcases Nat.lt_or_ge (pos + 1) (L.shift 0) with hin | hout
  · exact .entrance hin hnext
  · have hpos : pos + 1 = L.shift 0 := by omega
    have hzero := hnext.last hf.carries_entrance (by omega)
    rw [hpos, hzero]
    exact h.told_original hs (hs.entries (0, 0) List.mem_cons_self)

omit h hs in
/-- A return leaves nothing on the stack. -/
theorem after_of_return {p : Nat} {i : Instruction} {a b : UInt16} {l : List (Nat × UInt16)}
    (hck : Walk.Checked c p e i a b l) (hr : i.opcode = .ret) : e - a + b = 0 := by
  have hflow : i.opcode.flow = .ret := by
    rw [hr]
    rfl
  cases hck.passes with
  | ret _ _ h0 => exact h0
  | next hf | branch hf | condBranch hf | leave hf | throw hf =>
    rw [hflow] at hf
    cases hf

omit h hs in
/-- A return finds its value alone on the stack, if there is one. -/
theorem depth_of_return {p : Nat} {i : Instruction} {a b : UInt16} {l : List (Nat × UInt16)}
    (hck : Walk.Checked c p e i a b l) (hr : i.opcode = .ret) :
    e = if c.method.returnType.isVoid then 0 else 1 := by
  have heffect := hck.effect
  obtain ⟨rfl, rfl⟩ : (if c.method.returnType.isVoid then 0 else 1) = a ∧ 0 = b := by
    unfold stackEffect at heffect
    rw [hr] at heffect
    exact Prod.mk.inj (Except.ok.inj heffect)
  have hzero := after_of_return hck hr
  rw [UInt16.add_zero] at hzero
  rw [← UInt16.sub_add_cancel e (if c.method.returnType.isVoid then 0 else 1), hzero,
    UInt16.zero_add]

omit hs in
/-- In the place of a return its value is stored, and control leaves for the exit. -/
theorem return_step (hf : L.Fits c') {p : Nat} {i : Instruction}
    (hi : c.code[p]? = some i) (hr : i.opcode = .ret)
    (he : e = if c.method.returnType.isVoid then 0 else 1) :
    ∃ j a b l, Walk.Checked c' (L.shift p) e j a b l ∧ e - a + b ≤ 4 ∧
      ∀ t ∈ l, L.Told c c' w t.1 t.2 := by
  have hat := h.codeAt_return hi hr
  have hresult := hf.result
  rw [h.method] at hresult
  cases hslot : L.result? with
  | none =>
    rw [hslot, Option.isSome_none] at hresult
    rw [if_pos (by simpa using hresult)] at he
    subst he
    rw [hslot] at hat
    refine ⟨_, 0, 0, _, h.checked_leave hat.fetch, by decide, fun t ht => ?_⟩
    obtain rfl := List.mem_singleton.1 ht
    exact told_exit c c' w
  | some slot =>
    have hsome : L.result?.isSome = true := by rw [hslot]; rfl
    rw [hslot, Option.isSome_some] at hresult
    rw [if_neg (by simpa using hresult)] at he
    subst he
    rw [hslot] at hat
    have hplace := h.shift_stored hi hr hsome
    have hend : L.shift (p + 1) ≤ L.shift L.body.size :=
      L.monotone_shift.le_iff.2 (h.lt_size hi)
    have hfirst := L.monotone_shift.le_iff.2 (Nat.zero_le p)
    have hsize := h.shift_lt_size (Nat.le_refl _)
    have hck : Walk.Checked c' (L.shift p) 1 (.stloc slot) 1 0 [(L.shift p + 1, 0)] :=
      ⟨hat.fetch, checkOperand_slot rfl (hf.resultSlot slot hslot), rfl, by decide,
        .next rfl (by omega)⟩
    refine ⟨_, 1, 0, _, hck, by decide, fun t ht => ?_⟩
    obtain rfl := List.mem_singleton.1 ht
    exact .inside (by omega) (by omega) (.stored rfl hi hr hsome rfl)

theorem original_step (hn : w.work = []) (hf : L.Fits c') {p : Nat} (hd : w.depth? p = some e) :
    ∃ i a b l, Walk.Checked c' (L.shift p) e i a b l ∧ e - a + b ≤ max w.maxStack 4 ∧
      ∀ t ∈ l, L.Told c c' w t.1 t.2 := by
  obtain ⟨i, a, b, l, hsettled⟩ := hs.settled p e hd (by rw [hn]; exact List.not_mem_nil)
  by_cases hr : i.opcode = .ret
  · obtain ⟨j, a', b', l', hck, hle, hl⟩ :=
      h.return_step hf hsettled.code hr (depth_of_return hsettled.toChecked hr)
    exact ⟨j, a', b', l', hck, UInt16.le_trans hle (le_max _ _).2, hl⟩
  · refine ⟨i, a, b, _, h.checked_shift hsettled.toChecked hr,
      UInt16.le_trans hsettled.below (le_max _ _).1, fun t ht => ?_⟩
    obtain ⟨t₀, ht₀, rfl⟩ := List.mem_map.1 ht
    exact h.told_original hs (hsettled.handed t₀ ht₀)

omit hs in
theorem stored_step {p : Nat} {i : Instruction} (hi : c.code[p]? = some i)
    (hr : i.opcode = .ret) (hsome : L.result?.isSome = true) :
    Walk.Checked c' (L.shift p + 1) 0 (.leave L.exit) 0 0 [(L.exitPos, 0)] := by
  have hat := h.codeAt_return hi hr
  obtain ⟨slot, hslot⟩ := Option.isSome_iff_exists.1 hsome
  rw [hslot] at hat
  exact h.checked_leave hat.tail.fetch

omit hs in
/-- The handler of the guard ends with the instruction that raises the exception again. -/
theorem rescue_step (hf : L.Fits c') (ha : Along c' 4 (L.shift L.body.size + 1) 1 L.rescue pos e) :
    ∃ i a b l, Walk.Checked c' pos e i a b l ∧ e - a + b ≤ 4 ∧
      ∀ t ∈ l, L.Told c c' w t.1 t.2 := by
  have hat := h.codeAt h.describes.codeAt_handler
  have hrethrow : c'.code[L.rethrowPos]? = some (.plain .rethrow) := by
    rw [L.rethrowPos_eq]
    exact hat.right.fetch
  have hsize := (Array.getElem?_eq_some_iff.1 hrethrow).1
  have hpos := L.rethrowPos_eq
  rcases Nat.lt_or_eq_of_le ha.le.2 with hlt | hlast
  · obtain ⟨i, a, b, hck, hle, hnext⟩ := ha.checked hf.carries_rescue hat.left (by omega) hlt
    refine ⟨i, a, b, _, hck, hle, fun t ht => ?_⟩
    obtain rfl := List.mem_singleton.1 ht
    exact .rescue hnext
  · obtain rfl := ha.last hf.carries_rescue hlast
    rw [← hpos] at hlast
    subst hlast
    exact ⟨_, 0, 0, [], ⟨hrethrow, rfl, rfl, by decide, .throw rfl fun _ => h.inHandler_rethrow⟩,
      by decide, fun t ht => absurd ht List.not_mem_nil⟩

omit hs in
/-- The exit ends with a return outside all regions, its value alone on the stack. -/
theorem departure_step (hf : L.Fits c') (ha : Along c' 4 L.exitPos 0 L.departure pos e) :
    ∃ i a b l, Walk.Checked c' pos e i a b l ∧ e - a + b ≤ 4 ∧
      ∀ t ∈ l, L.Told c c' w t.1 t.2 := by
  have hat := h.codeAt h.describes.codeAt_exit
  rw [← List.append_assoc] at hat
  have hret : c'.code[L.exitPos + L.departure.length]? = some (.plain .ret) := hat.right.fetch
  have hsize := (Array.getElem?_eq_some_iff.1 hret).1
  rcases Nat.lt_or_eq_of_le ha.le.2 with hlt | hlast
  · obtain ⟨i, a, b, hck, hle, hnext⟩ := ha.checked hf.carries_departure hat.left hsize hlt
    refine ⟨i, a, b, _, hck, hle, fun t ht => ?_⟩
    obtain rfl := List.mem_singleton.1 ht
    exact .departure hnext
  · obtain rfl := ha.last hf.carries_departure hlast
    subst hlast
    have hempty (n : UInt16) : n - n + 0 = 0 := by rw [UInt16.sub_self, UInt16.add_zero]
    refine ⟨_, _, 0, [], ⟨hret, rfl, rfl, UInt16.le_refl _, .ret rfl ?_ (hempty _)⟩, ?_,
      fun t ht => absurd ht List.not_mem_nil⟩
    · exact h.not_inRegion_exit (Nat.le_add_right _ _)
    · rw [hempty]
      decide

/-- No check fails on the depths that are told. -/
theorem told_step (hn : w.work = []) (hf : L.Fits c') (ha : L.Told c c' w pos e) :
    ∃ i a b l, Walk.Checked c' pos e i a b l ∧ e - a + b ≤ max w.maxStack 4 ∧
      ∀ t ∈ l, L.Told c c' w t.1 t.2 := by
  have weaken (hex : ∃ i a b l, Walk.Checked c' pos e i a b l ∧ e - a + b ≤ 4 ∧
      ∀ t ∈ l, L.Told c c' w t.1 t.2) : ∃ i a b l, Walk.Checked c' pos e i a b l ∧
        e - a + b ≤ max w.maxStack 4 ∧ ∀ t ∈ l, L.Told c c' w t.1 t.2 := by
    obtain ⟨i, a, b, l, hck, hle, hl⟩ := hex
    exact ⟨i, a, b, l, hck, UInt16.le_trans hle (le_max _ _).2, hl⟩
  cases ha with
  | entrance hlt ha => exact weaken (h.entrance_step hs hf hlt ha)
  | inside _ _ ha =>
    cases ha with
    | original hpos hd =>
      subst hpos
      exact h.original_step hs hn hf hd
    | stored hpos hi hr hsome he =>
      subst hpos he
      refine weaken ⟨_, 0, 0, _, h.stored_step hi hr hsome, by decide, fun t ht => ?_⟩
      obtain rfl := List.mem_singleton.1 ht
      exact told_exit c c' w
  | rescue ha => exact weaken (h.rescue_step hf ha)
  | departure ha => exact weaken (h.departure_step hf ha)

/-- The depths that are told are all that a walk over the woven body finds. -/
theorem expects_of_fits (hn : w.work = []) (hf : L.Fits c') :
    c'.Expects (L.Told c c' w) (max w.maxStack 4) where
  unique _ _ _ ha hb := h.told_unique ha hb
  entries t ht := by
    rcases List.mem_cons.1 ht with rfl | ht
    · refine .entrance ?_ (.first c' 4 0 0 L.entrance)
      rw [← L.length_entrance]
      exact Nat.succ_pos _
    · rw [h.regions, List.map_append, List.map_map] at ht
      rcases List.mem_append.1 ht with ht | ht
      · obtain ⟨r, hr, rfl⟩ := List.mem_map.1 ht
        exact h.told_original hs (hs.entries (r.handlerRange.start, 1)
          (List.mem_cons_of_mem _ (List.mem_map_of_mem hr)))
      · obtain rfl := List.mem_singleton.1 ht
        exact .rescue (.first c' 4 _ 1 L.rescue)
  caught _ := UInt16.le_trans (by decide : (1 : UInt16) ≤ 4) (le_max _ _).2
  step _ _ ha := h.told_step hs hn hf ha

/-- The greatest depth does not fall: what attained it is reached in the woven body too. -/
theorem maxStack_le {w' : Walk} (hs' : Walk.Sound c' w')
    (hn' : w'.work = []) (hw' : w'.Within (L.Told c c' w)) : w.maxStack ≤ w'.maxStack := by
  have hzero : 0 ≤ w'.maxStack := UInt16.le_iff_toNat_le.2 (Nat.zero_le _)
  rcases hs.attained with h0 | ⟨-, h1⟩ | ⟨p, d, i, a, b, l, hd, hck, hm⟩
  · rw [h0]
    exact hzero
  · rw [h1]
    refine hs'.handled ?_
    rw [h.regions]
    exact List.append_ne_nil_of_right_ne_nil _ (List.cons_ne_nil _ _)
  · rw [hm]
    by_cases hr : i.opcode = .ret
    · rw [after_of_return hck hr]
      exact hzero
    · obtain ⟨d', hd'⟩ := hs'.exists_depth hn' (h.reaches_shift (hs.reached p d hd))
      obtain rfl := h.told_unique (h.told_original hs hd) (hw' _ _ hd')
      obtain ⟨j, a', b', l', hsettled⟩ :=
        hs'.settled _ d hd' (by rw [hn']; exact List.not_mem_nil)
      obtain ⟨-, rfl, rfl⟩ := hsettled.toChecked.unique (h.checked_shift hck hr)
      exact hsettled.below

end Moves

/-- Where the parts that weaving added pass their checks, there a woven body verifies if the
original one did. Its greatest depth is not less, and not more unless the added code needs
it. -/
theorem verifyBody_of_fits {m : Method} {woven : Body} {imports imports' : ImportTable}
    {k : UInt16} (hd : L.Describes woven) (he : imports'.Extends imports)
    (hs : Straight L.prologue) (hf : ∀ rs, L.Fits (.of m woven imports' rs))
    (hv : verifyBody m L.body imports = .ok k) :
    ∃ k', verifyBody m woven imports' = .ok k' ∧ k ≤ k' ∧ k' ≤ max k 4 := by
  obtain ⟨w, hw, rfl⟩ := verifyBody_eq_ok_iff.1 hv
  obtain ⟨rs, hc, hsound, hn⟩ := sound_of_verifyWalk hw
  have hmoves := moves_of_describes hc hd he hs
  obtain ⟨w', hw', hwithin, htop⟩ :=
    verifyWalk_of_expects hmoves.woven (hmoves.expects_of_fits hsound hn (hf _))
  obtain ⟨rs', hc', hsound', hn'⟩ := sound_of_verifyWalk hw'
  obtain rfl : rs' = rs.map (·.shift L.shift) ++ [L.region] :=
    Except.ok.inj (hc'.regions.symm.trans hmoves.woven.regions)
  exact ⟨w'.maxStack, verifyBody_eq_ok_iff.2 ⟨w', hw', rfl⟩,
    hmoves.maxStack_le hsound hsound' hn' hwithin, htop⟩

end Layout

end Interpose
