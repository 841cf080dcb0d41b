import Interpose.Verify
/-!
# Checks of one instruction

The operand and the effect of an instruction as numbers that do not wrap, and when the
verifier's own are the same.

Results:
* `checkOperand_eq_ok_iff_fits`: the verifier's check of an operand.
* `effect_of_stackEffect`, `stackEffect_isOk`: the verifier's effect of an instruction.
-/
namespace Interpose

/-- What an instruction takes from the stack, and what it then puts on it. -/
def Instruction.effect (m : Method) (imports : ImportTable) (i : Instruction) : Nat × Nat :=
  match i.opcode.fixedEffect? with
  | some e => (e.1.toNat, e.2.toNat)
  | none =>
    if i.opcode = .ret then (if m.returnType.isVoid then 0 else 1, 0)
    else match i.member?.bind imports.get? with
      | none => (0, 0)
      | some r =>
        if i.opcode = .newobj then (r.params.length, 1)
        else (r.params.length + if r.hasThis then 1 else 0, if r.returnType.isVoid then 0 else 1)

/-- The operand is of the opcode's kind, and what it names exists. -/
structure OperandFits (m : Method) (b : Body) (imports : ImportTable) (i : Instruction) :
    Prop where
  kind : i.opcode.operandKind = i.operand.kind
  argument : ∀ index, i.operand = .argument index →
    index.toNat < m.params.length + if m.hasThis then 1 else 0
  slot : ∀ id, i.operand = .slot id → id.toNat < b.locals.size
  member : ∀ id, i.operand = .member id → id < imports.size

/-- Sizes for which sixteen bits suffice. -/
structure Unwrapped (m : Method) (b : Body) (imports : ImportTable) : Prop where
  body : b.size < 65535
  params : m.params.length < 65535
  arities : ∀ r ∈ imports.entries, r.params.length < 65535

section

variable {m : Method} {b : Body} {imports : ImportTable} {i : Instruction}

theorem toNat_slotOf (m : Method) (place : Nat) :
    (m.slotOf place).toNat = (place + if m.hasThis then 1 else 0) % 65536 := by
  unfold Method.slotOf
  rw [UInt16.toNat_add, UInt16.toNat_ofNat']
  cases m.hasThis <;> exact Nat.mod_add_mod _ _ _

theorem toNat_argCount (h : m.params.length < 65535) :
    m.argCount.toNat = m.params.length + if m.hasThis then 1 else 0 := by
  unfold Method.argCount
  rw [toNat_slotOf, Nat.mod_eq_of_lt]
  split <;> omega

theorem checkOperand_eq_ok_iff :
    checkOperand m b imports i = .ok () ↔
      i.opcode.operandKind = i.operand.kind ∧
        (∀ index, i.operand = .argument index → index < m.argCount) ∧
        (∀ id, i.operand = .slot id → id.toNat < b.locals.size) ∧
        ∀ id, i.operand = .member id → id < imports.size := by
  have hk : i.isValid = true ↔ i.opcode.operandKind = i.operand.kind := by
    simp [Instruction.isValid]
  unfold checkOperand
  constructor
  · intro hc
    split at hc
    · next hv =>
      refine ⟨hk.1 hv, ?_, ?_, ?_⟩
      · intro index ho
        simp only [ho] at hc
        split at hc
        · assumption
        · cases hc
      · intro id ho
        simp only [ho] at hc
        split at hc
        · next hs => simpa [Body.local?] using hs
        · cases hc
      · intro id ho
        simp only [ho] at hc
        split at hc
        · next hs => simpa [ImportTable.get?, ImportTable.size] using hs
        · cases hc
    · cases hc
  · rintro ⟨hkind, ha, hs, hm⟩
    rw [if_pos (hk.2 hkind)]
    split
    · next index ho => exact if_pos (ha index ho)
    · next id ho =>
      have := hs id ho
      exact if_pos (by simpa [Body.local?] using this)
    · next id ho =>
      have := hm id ho
      exact if_pos (by simpa [ImportTable.get?, ImportTable.size] using this)
    · rfl

theorem checkOperand_slot {op : Opcode} {slot : SlotId} (hop : op.operandKind = .slot)
    (h : slot.toNat < b.locals.size) : checkOperand m b imports ⟨op, .slot slot⟩ = .ok () := by
  refine checkOperand_eq_ok_iff.2 ⟨hop, fun _ he => ?_, fun id he => ?_, fun _ he => ?_⟩
  · cases he
  · cases he
    exact h
  · cases he

theorem checkOperand_member {op : Opcode} {id : MemberId} (hop : op.operandKind = .member)
    (h : id < imports.size) : checkOperand m b imports ⟨op, .member id⟩ = .ok () := by
  refine checkOperand_eq_ok_iff.2 ⟨hop, fun _ he => ?_, fun _ he => ?_, fun _ he => ?_⟩
  · cases he
  · cases he
  · cases he
    exact h

theorem checkOperand_ldarg {index : UInt16} (h : index < m.argCount) :
    checkOperand m b imports (.ldarg index) = .ok () := by
  refine checkOperand_eq_ok_iff.2 ⟨rfl, fun _ he => ?_, fun _ he => ?_, fun _ he => ?_⟩
  · cases he
    exact h
  · cases he
  · cases he

/-- A call takes what the signature says, the receiver included. -/
theorem stackEffect_call {op : Opcode} {id : MemberId} {r : MemberRef}
    (hop : op = .call ∨ op = .callvirt) (h : imports.get? id = some r) :
    stackEffect m imports ⟨op, .member id⟩ =
      .ok (UInt16.ofNat r.params.length + if r.hasThis then 1 else 0,
        if r.returnType.isVoid then 0 else 1) := by
  rcases hop with rfl | rfl
  · simp only [stackEffect, Opcode.fixedEffect?, Instruction.member?, h]
    rfl
  · simp only [stackEffect, Opcode.fixedEffect?, Instruction.member?, h]
    rfl

/-- A call takes its arguments, the receiver included if it passes one. -/
theorem effect_of_member {op : Opcode} {id : MemberId} {r : MemberRef}
    (hop : op = .call ∨ op = .callvirt ∨ op = .newobj) (h : imports.get? id = some r) :
    (⟨op, .member id⟩ : Instruction).effect m imports =
      (r.params.length + (if r.hasThis && op ≠ .newobj then 1 else 0),
        if op = .newobj || !r.returnType.isVoid then 1 else 0) := by
  have hfixed : op.fixedEffect? = none := by rcases hop with rfl | rfl | rfl <;> rfl
  have hret : op ≠ .ret := by rcases hop with rfl | rfl | rfl <;> decide
  unfold Instruction.effect
  simp only [hfixed, Instruction.member?, Option.bind_some, h, if_neg hret]
  by_cases hn : op = .newobj
  · simp [hn]
  · cases r.returnType.isVoid <;> simp [hn]

theorem checkOperand_eq_ok_iff_fits (h : m.params.length < 65535) :
    checkOperand m b imports i = .ok () ↔ OperandFits m b imports i := by
  rw [checkOperand_eq_ok_iff]
  simp only [UInt16.lt_iff_toNat_lt, toNat_argCount h]
  exact ⟨fun ⟨hk, ha, hs, hm⟩ => ⟨hk, ha, hs, hm⟩, fun ⟨hk, ha, hs, hm⟩ => ⟨hk, ha, hs, hm⟩⟩

theorem effect_of_stackEffect (h : ∀ r ∈ imports.entries, r.params.length < 65535)
    {p q : UInt16} (he : stackEffect m imports i = .ok (p, q)) :
    i.effect m imports = (p.toNat, q.toNat) := by
  unfold stackEffect at he
  unfold Instruction.effect
  cases hf : i.opcode.fixedEffect? with
  | some e =>
    rw [hf] at he
    cases he
    rfl
  | none =>
    rw [hf] at he
    dsimp only at he ⊢
    by_cases hr : i.opcode = .ret
    · rw [if_pos hr] at he ⊢
      cases he
      cases m.returnType.isVoid <;> rfl
    · rw [if_neg hr] at he ⊢
      split at he
      · cases he
      · next id hid =>
        split at he
        · cases he
        · next r hget =>
          simp only [hid, Option.bind_some, hget]
          have hlen : (UInt16.ofNat r.params.length).toNat = r.params.length := by
            have := h r (List.mem_of_getElem? hget)
            rw [UInt16.toNat_ofNat']
            exact Nat.mod_eq_of_lt (by omega)
          have hlt := h r (List.mem_of_getElem? hget)
          by_cases hn : i.opcode = .newobj
          · rw [if_pos hn] at he ⊢
            cases he
            rw [hlen]
            rfl
          · rw [if_neg hn] at he ⊢
            cases he
            congr 1
            · cases r.hasThis with
              | true =>
                rw [if_pos rfl, if_pos rfl, UInt16.toNat_add, hlen]
                exact (Nat.mod_eq_of_lt (by show _ + 1 < _; omega)).symm
              | false =>
                rw [if_neg Bool.false_ne_true, if_neg Bool.false_ne_true, UInt16.toNat_add, hlen]
                exact (Nat.mod_eq_of_lt (by show _ + 0 < _; omega)).symm
            · cases r.returnType.isVoid <;> rfl

/-- An operand that fits gives the effect of its instruction. -/
theorem stackEffect_isOk (h : OperandFits m b imports i) :
    ∃ e, stackEffect m imports i = .ok e := by
  unfold stackEffect
  split
  · exact ⟨_, rfl⟩
  · next hf =>
    split
    · exact ⟨_, rfl⟩
    · have hk : i.operand.kind = .member := by
        rw [← h.kind]
        cases ho : i.opcode <;> simp_all [Opcode.fixedEffect?, Opcode.operandKind]
      cases ho : i.operand with
      | member id =>
        have hid := h.member id ho
        simp only [Instruction.member?, ho]
        have hget : imports.get? id = some imports.entries[id] := List.getElem?_eq_getElem hid
        simp only [hget]
        split <;> exact ⟨_, rfl⟩
      | _ => rw [ho] at hk; cases hk

end

end Interpose
