import Interpose.Proofs.Body.Codec
import Interpose.Proofs.Document.Scalars
/-!
# Documents that read back

What a module is written as, and when it is read back from that. A type is there by its name, and
labels and ids have 32 bits; a module whose parts respect this is read back as it was, with
positions for the ids of its instructions.

Results:
* `bind_member`: a member of an object is read, and then the others.
* `decodeBody_positioned`: a body reads back with positions for ids.
* `encodeModule_eq`, `encodeModule_renumbered`: a module and its renumbered form have one document.
* `decodeModule_moduleDocument`: the renumbered form is what the document is read as.
-/
namespace Interpose

/-! ## Parts of any document -/

namespace Document

section

variable {α : Type} {dec : Json → Decoded α} {enc : α → Json} {a : α} {l : List α} {j : Json}
  {members : List (String × Json)} {key : String}

/-- A list is read item by item. -/
theorem decodeList_map {f : α → α} (h : ∀ a ∈ l, dec (enc a) = .ok (f a)) :
    decodeList dec (.list enc l) = .ok (l.map f) := by
  have hitems : decodeItems dec (l.map enc) = .ok (l.map f) := by
    induction l with
    | nil => rfl
    | cons a rest ih =>
      rw [List.map_cons, decodeItems, h a List.mem_cons_self,
        ih fun b hb => h b (List.mem_cons_of_mem _ hb)]
      rfl
  exact hitems

/-- A list reads back if each of its items does. -/
theorem decodeList_list (h : ∀ a ∈ l, dec (enc a) = .ok a) :
    decodeList dec (.list enc l) = .ok l := by
  have hread := decodeList_map (f := id) h
  rwa [List.map_id] at hread

theorem decodeMember?_of (hm : Json.member? members key = some j) (h : dec j = .ok a) :
    decodeMember? members key dec = .ok (some a) := by
  rw [decodeMember?, hm]
  exact map_eq_ok.2 ⟨a, h, rfl⟩

/-- A member that is there is read, and then the others. -/
theorem bind_member {β : Type} {k : Option α → Decoded β} {r : β}
    (hm : Json.member? members key = some j) (h : dec j = .ok a) (hk : k (some a) = .ok r) :
    (decodeMember? members key dec >>= k) = .ok r :=
  bind_eq_ok.2 ⟨some a, decodeMember?_of hm h, hk⟩

theorem decodeMember?_absent (hm : Json.member? members key = none) :
    decodeMember? members key dec = .ok none := by
  rw [decodeMember?, hm]

theorem decodeNullable_ofOption {a? : Option α} (hne : ∀ a, enc a ≠ .null)
    (h : ∀ a ∈ a?, dec (enc a) = .ok a) :
    decodeNullable dec (.ofOption enc a?) = .ok a? := by
  cases a? with
  | none => rfl
  | some a =>
    have hread : decodeNullable dec (enc a) = some <$> dec (enc a) := by
      unfold decodeNullable
      split
      · next hnull => exact absurd hnull (hne a)
      · rfl
    exact hread.trans (map_eq_ok.2 ⟨a, h a rfl, rfl⟩)

end

/-! ## Numbers and types -/

theorem nat_ne_null (n : Nat) : Json.nat n ≠ .null := by
  intro h
  cases h

theorem decodeNat_nat {limit n : Nat} (h : n < limit) : decodeNat limit (.nat n) = .ok n := by
  simp [decodeNat, Json.nat, h]

theorem decodeUInt32_nat {n : Nat} (h : n < 0x100000000) : decodeUInt32 (.nat n) = .ok n :=
  decodeNat_nat h

theorem decodeUInt16_toNat (u : UInt16) : decodeUInt16 (.nat u.toNat) = .ok u :=
  map_eq_ok.2 ⟨_, decodeNat_nat u.toNat_lt, by simp⟩

theorem decodeInt32_toInt (v : Int32) : decodeInt32 (.int v.toInt) = .ok v := by
  have hlo := v.le_toInt
  have hhi := v.toInt_lt
  have hrange : -0x80000000 ≤ v.toInt ∧ v.toInt < 0x80000000 := by omega
  rw [decodeInt32, if_pos hrange, Int32.ofInt_toInt]

theorem decodeTy_encodeTy {t : Ty} (h : t.WellNamed) : decodeTy (encodeTy t) = .ok t := by
  simp only [decodeTy, encodeTy, decodeString, ok_bind, Ty.parse_name h]

theorem decodeInt64_encodeInt64 (v : Int64) : decodeInt64 (encodeInt64 v) = .ok v :=
  mapError_eq_ok.2 (Decimal.readInt64_toString v)

theorem decodeFlags_text (f : MethodFlags) : decodeFlags (.str f.text) = .ok f :=
  decodeFlagText_text f

end Document

/-! ## Instructions -/

/-- Is the operand read back from its document, as far as it is no id? -/
def Operand.Storable : Operand → Prop
  | .float64 x => x.canonical = x
  | .ty t => t.WellNamed
  | _ => True

namespace Document

theorem decodeOperand_encodeOperand {o : Operand} (h : o.Storable)
    (ht : ∀ id, o = .target id → id < 0x100000000)
    (hm : ∀ id, o = .member id → id < 0x100000000) : decodeOperand (encodeOperand o) = .ok o := by
  cases o with
  | none => rfl
  | int32 v => exact map_eq_ok.2 ⟨v, decodeInt32_toInt v, rfl⟩
  | int64 v => exact map_eq_ok.2 ⟨v, decodeInt64_encodeInt64 v, rfl⟩
  | float64 x => exact map_eq_ok.2 ⟨x, (decodeFloat_encodeFloat x).trans (congrArg _ h), rfl⟩
  | text s => rfl
  | argument a => exact map_eq_ok.2 ⟨a, decodeUInt16_toNat a, rfl⟩
  | slot l => exact map_eq_ok.2 ⟨l, decodeUInt16_toNat l, rfl⟩
  | target t => exact map_eq_ok.2 ⟨t, decodeUInt32_nat (ht t rfl), rfl⟩
  | ty t => exact map_eq_ok.2 ⟨t, decodeTy_encodeTy h, rfl⟩
  | member m => exact map_eq_ok.2 ⟨m, decodeUInt32_nat (hm m rfl), rfl⟩

/-- An instruction is read from its members, whatever others there are. -/
theorem decodeInstruction_of {members : List (String × Json)} {i : Instruction}
    (hop : Json.member? members "op" = Json.member? (instructionMembers i) "op")
    (hoperand : Json.member? members "operand" = Json.member? (instructionMembers i) "operand")
    (hread : decodeOperand (encodeOperand i.operand) = .ok i.operand) :
    decodeInstruction (.obj members) = .ok i := by
  obtain ⟨op, o⟩ := i
  have hopcode : decodeOpcode (.str op.key) = .ok op := by
    simp only [decodeOpcode, decodeString, ok_bind, Opcode.ofKey?_key, need]
  have hopt : ∃ o?, decodeMember? members "operand" decodeOperand = .ok o? ∧
      o?.getD .none = o := by
    cases o with
    | none => exact ⟨none, decodeMember?_absent (hoperand.trans rfl), rfl⟩
    | _ => exact ⟨some _, decodeMember?_of (hoperand.trans rfl) hread, rfl⟩
  obtain ⟨o?, ho, rfl⟩ := hopt
  rw [decodeInstruction, decodeObject, ok_bind]
  refine bind_member (hop.trans rfl) hopcode ?_
  exact bind_eq_ok.2 ⟨o?, ho, rfl⟩

theorem decodeLabelled_members {n : Nat} {i : Instruction} (hn : n < 0x100000000)
    (hread : decodeOperand (encodeOperand i.operand) = .ok i.operand) :
    decodeLabelled (.obj (("label", .nat n) :: instructionMembers i)) = .ok (n, i) := by
  have hinstruction : decodeInstruction (.obj (("label", .nat n) :: instructionMembers i)) =
      .ok i := decodeInstruction_of (Json.member?_cons_ne (by decide) _ _)
    (Json.member?_cons_ne (by decide) _ _) hread
  rw [decodeLabelled, decodeObject, ok_bind]
  refine bind_member rfl (decodeUInt32_nat hn) ?_
  exact bind_eq_ok.2 ⟨i, hinstruction, rfl⟩

/-! ## Bodies -/

theorem decodeSlot_encodeSlot {s : Slot} (h : s.ty.WellNamed) :
    decodeSlot (encodeSlot s) = .ok s := by
  obtain ⟨ty, name?, synthetic⟩ := s
  cases name? <;> cases synthetic <;>
    simp [decodeSlot, encodeSlot, decodeObject, decodeMember?, Json.member?, decodeNullable,
      decodeString, decodeBool, decodeTy_encodeTy h, ok_bind, need]

theorem decodeHandlerKind_encode (k : HandlerKind) :
    decodeHandlerKind (encodeHandlerKind k) = .ok k := by
  cases k <;> rfl

theorem decodeHandler_encodeHandler {h : Handler} (ha : ∀ n ∈ h.anchors, n < 0x100000000) :
    decodeHandler (encodeHandler h) = .ok h := by
  simp only [Handler.anchors, List.mem_cons, List.mem_append, Option.mem_toList] at ha
  have hte : decodeNullable decodeUInt32 (.ofOption .nat h.tryEnd?) = .ok h.tryEnd? :=
    decodeNullable_ofOption nat_ne_null fun n hn => decodeUInt32_nat (ha n (.inr (.inl hn)))
  have hhe : decodeNullable decodeUInt32 (.ofOption .nat h.handlerEnd?) = .ok h.handlerEnd? :=
    decodeNullable_ofOption nat_ne_null fun n hn =>
      decodeUInt32_nat (ha n (.inr (.inr (.inr hn))))
  rw [decodeHandler, encodeHandler, decodeObject, ok_bind]
  refine bind_member rfl hhe ?_
  refine bind_member rfl (decodeUInt32_nat (ha h.handlerStart (.inr (.inr (.inl rfl))))) ?_
  refine bind_member rfl (decodeHandlerKind_encode h.kind) ?_
  refine bind_member rfl hte ?_
  exact bind_member rfl (decodeUInt32_nat (ha h.tryStart (.inl rfl))) rfl

end Document

/-- Is the labelled body read back from its document? -/
structure LabelledBody.Storable (l : LabelledBody) : Prop where
  slots : ∀ s ∈ l.locals.toList, s.ty.WellNamed
  labels : ∀ n ∈ l.labels, n < 0x100000000
  references : ∀ n ∈ l.references, n < 0x100000000
  operands : ∀ p ∈ l.code, p.2.operand.Storable
  members : ∀ p ∈ l.code, ∀ id, p.2.member? = some id → id < 0x100000000

/-- Are all parts of the body read back from a document, as far as they are no ids? -/
structure Body.Storable (b : Body) : Prop where
  slots : ∀ s ∈ b.locals.toList, s.ty.WellNamed
  references : ∀ id ∈ b.references, id ∈ b.ids
  operands : ∀ i ∈ b.code, i.operand.Storable

/-- Are 32 bits enough for the ids in the body? -/
structure Body.Addressable (b : Body) : Prop where
  size : b.size ≤ 0x100000000
  members : ∀ i ∈ b.code, ∀ id, i.member? = some id → id < 0x100000000

instance decidableBodyAddressable (b : Body) : Decidable b.Addressable :=
  decidable_of_iff
    (b.size ≤ 0x100000000 ∧ ∀ i ∈ b.code, ∀ id ∈ i.member?, id < 0x100000000)
    ⟨fun h => ⟨h.1, h.2⟩, fun h => ⟨h.size, h.members⟩⟩

theorem Instruction.storable_retarget {i : Instruction} (f : Nat → Nat) :
    (i.retarget f).operand.Storable ↔ i.operand.Storable := by
  obtain ⟨op, o⟩ := i
  cases o <;> exact Iff.rfl

theorem Instruction.member?_retarget (i : Instruction) (f : Nat → Nat) :
    (i.retarget f).member? = i.member? := by
  obtain ⟨op, o⟩ := i
  cases o <;> rfl

namespace Body

variable {b : Body}

/-- Labels of 32 bits are enough for such a body. -/
theorem Storable.positioned (h : b.Storable) (ha : b.Addressable) : b.positioned.Storable := by
  have hcode (p : Nat × Instruction) (hp : p ∈ b.positioned.code) :
      ∃ i ∈ b.code, i.retarget b.ids.idxOf = p.2 := by
    have hmem := List.mem_map_of_mem (f := Prod.snd) hp
    rwa [Body.positioned, map_snd_number, List.mem_map] at hmem
  refine ⟨h.slots, fun n hn => ?_, fun n hn => ?_, fun p hp => ?_, fun p hp id hid => ?_⟩
  · rw [LabelledBody.labels, Body.positioned, map_fst_number, List.mem_range'_1,
      length_map_retarget] at hn
    exact Nat.lt_of_lt_of_le (by omega) ha.size
  · rw [LabelledBody.references, Body.positioned, map_snd_number] at hn
    exact Nat.lt_of_lt_of_le (lt_of_mem_references_positioned h.references n hn) ha.size
  · obtain ⟨i, hi, hp⟩ := hcode p hp
    rw [← hp, Instruction.storable_retarget]
    exact h.operands i hi
  · obtain ⟨i, hi, hp⟩ := hcode p hp
    rw [← hp, Instruction.member?_retarget] at hid
    exact ha.members i hi id hid

/-- Positions for ids need the same number of bits. -/
theorem addressable_renumbered : b.renumbered.Addressable ↔ b.Addressable := by
  have hcode : b.renumbered.code = b.code.map (·.retarget b.ids.idxOf) := code_ofParts
  have hsize : b.renumbered.size = b.size := size_ofParts.trans (b.length_map_retarget _)
  constructor
  · intro h
    refine ⟨hsize ▸ h.size, fun i hi id hid => ?_⟩
    refine h.members (i.retarget b.ids.idxOf) ?_ id (by rwa [Instruction.member?_retarget])
    rw [hcode]
    exact List.mem_map_of_mem hi
  · intro h
    refine ⟨hsize ▸ h.size, fun i' hi' id hid => ?_⟩
    rw [hcode] at hi'
    obtain ⟨i, hi, rfl⟩ := List.mem_map.1 hi'
    exact h.members i hi id (by rwa [← Instruction.member?_retarget])

end Body

namespace Document

theorem decodeBody_encodeLabelledBody {l : LabelledBody} (h : l.Storable) :
    decodeBody (encodeLabelledBody l) = l.decode.mapError .code := by
  have hslots : decodeList decodeSlot (.list encodeSlot l.locals.toList) = .ok l.locals.toList :=
    decodeList_list fun s hs => decodeSlot_encodeSlot (h.slots s hs)
  have hcode : decodeList decodeLabelled (.list (fun p => .obj (("label", .nat p.1) ::
      instructionMembers p.2)) l.code) = .ok l.code := by
    refine decodeList_list fun p hp => decodeLabelled_members ?_ ?_
    · exact h.labels p.1 (List.mem_map_of_mem hp)
    · refine decodeOperand_encodeOperand (h.operands p hp) (fun id hid => h.references id ?_)
        fun id hid => h.members p hp id (by rw [Instruction.member?, hid])
      refine mem_references.2 (.inl ⟨p.2, List.mem_map_of_mem hp, ?_⟩)
      rw [Instruction.target?, hid]
  have hhandlers : decodeList decodeHandler (.list encodeHandler l.handlers) = .ok l.handlers :=
    decodeList_list fun x hx => decodeHandler_encodeHandler fun n hn => h.references n
      (mem_references.2 (.inr ⟨x, hx, hn⟩))
  simp [decodeBody, encodeLabelledBody, decodeObject, decodeMember?, Json.member?, hslots, hcode,
    hhandlers, decodeUInt16_toNat, ok_bind, need]

/-- A body reads back with positions for ids. -/
theorem decodeBody_positioned {b : Body} (h : b.Storable) (ha : b.Addressable) :
    decodeBody (encodeLabelledBody b.positioned) = .ok b.renumbered := by
  rw [decodeBody_encodeLabelledBody (h.positioned ha)]
  exact mapError_eq_ok.2 (Body.decode_positioned h.references)

theorem encodeBody_eq {b : Body} (h : ∀ id ∈ b.references, id ∈ b.ids) :
    encodeBody b = .ok (encodeLabelledBody b.positioned) :=
  map_eq_ok.2 ⟨_, Body.encode_eq_ok_iff.2 ⟨h, rfl⟩, rfl⟩

theorem encodeBody_renumbered {b : Body} (h : ∀ id ∈ b.references, id ∈ b.ids) :
    encodeBody b.renumbered = .ok (encodeLabelledBody b.positioned) :=
  map_eq_ok.2 ⟨_, Body.encode_renumbered h, rfl⟩

end Document

/-! ## Methods -/

/-- Are all parts of the method read back from a document, as far as they are no ids? -/
structure Method.Storable (d : Method) : Prop where
  params : ∀ p ∈ d.params, p.ty.WellNamed
  returnType : d.returnType.WellNamed
  body : ∀ b ∈ d.body?, b.Storable

/-- Are 32 bits enough for the ids in the method? -/
def Method.Addressable (d : Method) : Prop := ∀ b ∈ d.body?, b.Addressable

instance decidableMethodAddressable (d : Method) : Decidable d.Addressable :=
  inferInstanceAs (Decidable (∀ b ∈ d.body?, b.Addressable))

/-- The method with positions for the ids of its body. -/
def Method.renumbered (d : Method) : Method := { d with body? := d.body?.map Body.renumbered }

theorem Method.addressable_renumbered {d : Method} : d.renumbered.Addressable ↔ d.Addressable := by
  simp only [Addressable, renumbered, Option.forall_mem_map, Body.addressable_renumbered]

namespace Document

variable {d : Method}

/-- The document of a method whose body is in good order. -/
def methodDocument (d : Method) : Json :=
  .obj ([("name", .str d.name), ("flags", .str d.flags.text),
    ("params", .list encodeParameter d.params), ("return_type", encodeTy d.returnType)] ++
    (if d.attributes.isEmpty then [] else [("attributes", .list .str d.attributes)]) ++
    [("body", .ofOption (encodeLabelledBody ·.positioned) d.body?)])

theorem encodeMethod_eq (h : d.Storable) : encodeMethod d = .ok (methodDocument d) := by
  obtain ⟨name, flags, params, returnType, attributes, body?⟩ := d
  cases body? with
  | none => rfl
  | some b =>
    simp only [encodeMethod, encodeBody_eq (h.body b rfl).references, ok_bind]
    rfl

theorem encodeMethod_renumbered (h : d.Storable) :
    encodeMethod d.renumbered = .ok (methodDocument d) := by
  obtain ⟨name, flags, params, returnType, attributes, body?⟩ := d
  cases body? with
  | none => rfl
  | some b =>
    simp only [encodeMethod, Method.renumbered, Option.map_some,
      encodeBody_renumbered (h.body b rfl).references, ok_bind]
    rfl

theorem decodeParameter_encodeParameter {p : Parameter} (h : p.ty.WellNamed) :
    decodeParameter (encodeParameter p) = .ok p := by
  rw [decodeParameter, encodeParameter, decodeObject, ok_bind]
  refine bind_member rfl (decodeUInt16_toNat p.index) ?_
  refine bind_member rfl rfl ?_
  exact bind_member rfl (decodeTy_encodeTy h) rfl

/-- A method reads back with positions for the ids of its body. -/
theorem decodeMethod_methodDocument (h : d.Storable) (ha : d.Addressable) :
    decodeMethod (methodDocument d) = .ok d.renumbered := by
  have hparams : decodeList decodeParameter (.list encodeParameter d.params) = .ok d.params :=
    decodeList_list fun p hp => decodeParameter_encodeParameter (h.params p hp)
  have hattributes : decodeList decodeString (.list .str d.attributes) = .ok d.attributes :=
    decodeList_list fun _ _ => rfl
  have hbody : decodeNullable decodeBody (.ofOption (encodeLabelledBody ·.positioned) d.body?) =
      .ok d.renumbered.body? := by
    rw [Method.renumbered]
    cases hb : d.body? with
    | none => rfl
    | some b =>
      exact map_eq_ok.2 ⟨_, decodeBody_positioned (h.body b hb) (ha b hb), rfl⟩
  rw [decodeMethod, methodDocument, decodeObject, ok_bind]
  -- attributes are written only if there are any
  cases hd : d.attributes with
  | nil =>
    refine bind_eq_ok.2 ⟨none, decodeMember?_absent rfl, ?_⟩
    refine bind_member rfl hbody ?_
    refine bind_member rfl (decodeFlags_text d.flags) ?_
    refine bind_member rfl rfl ?_
    refine bind_member rfl hparams ?_
    refine bind_member rfl (decodeTy_encodeTy h.returnType) ?_
    rw [Method.renumbered, hd]
    rfl
  | cons a rest =>
    rw [hd] at hattributes
    refine bind_member rfl hattributes ?_
    refine bind_member rfl hbody ?_
    refine bind_member rfl (decodeFlags_text d.flags) ?_
    refine bind_member rfl rfl ?_
    refine bind_member rfl hparams ?_
    refine bind_member rfl (decodeTy_encodeTy h.returnType) ?_
    rw [Method.renumbered, hd]
    rfl

end Document

/-! ## Members and libraries -/

/-- Do the types of the member read back? -/
structure MemberRef.Storable (r : MemberRef) : Prop where
  params : ∀ t ∈ r.params, t.WellNamed
  returnType : r.returnType.WellNamed

/-- Do the types of the signature read back? -/
structure Signature.Storable (s : Signature) : Prop where
  params : ∀ t ∈ s.params, t.WellNamed
  returnType : s.returnType.WellNamed

def Library.Storable (l : Library) : Prop := ∀ t ∈ l.types, ∀ s ∈ t.methods, s.Storable

namespace Document

theorem decodeTys_encodeTys {ts : List Ty} (h : ∀ t ∈ ts, t.WellNamed) :
    decodeList decodeTy (.list encodeTy ts) = .ok ts :=
  decodeList_list fun t ht => decodeTy_encodeTy (h t ht)

theorem decodeScope_encodeScope (s : Scope) : decodeScope (encodeScope s) = .ok s := by
  cases s <;> rfl

theorem decodeMemberRef_encodeMemberRef {r : MemberRef} (h : r.Storable) :
    decodeMemberRef (encodeMemberRef r) = .ok r := by
  rw [decodeMemberRef, encodeMemberRef, decodeObject, ok_bind]
  refine bind_member rfl rfl ?_
  refine bind_member rfl rfl ?_
  refine bind_member rfl rfl ?_
  refine bind_member rfl (decodeTys_encodeTys h.params) ?_
  refine bind_member rfl (decodeTy_encodeTy h.returnType) ?_
  exact bind_member rfl (decodeScope_encodeScope r.scope) rfl

theorem decodeSignature_encodeSignature {s : Signature} (h : s.Storable) :
    decodeSignature (encodeSignature s) = .ok s := by
  rw [decodeSignature, encodeSignature, decodeObject, ok_bind]
  refine bind_member rfl rfl ?_
  refine bind_member rfl rfl ?_
  refine bind_member rfl (decodeTys_encodeTys h.params) ?_
  exact bind_member rfl (decodeTy_encodeTy h.returnType) rfl

theorem decodeLibraryType_encodeLibraryType {t : LibraryType} (h : ∀ s ∈ t.methods, s.Storable) :
    decodeLibraryType (encodeLibraryType t) = .ok t := by
  have hmethods : decodeList decodeSignature (.list encodeSignature t.methods) = .ok t.methods :=
    decodeList_list fun s hs => decodeSignature_encodeSignature (h s hs)
  rw [decodeLibraryType, encodeLibraryType, decodeObject, ok_bind]
  refine bind_member rfl hmethods ?_
  exact bind_member rfl rfl rfl

theorem decodeLibrary_encodeLibrary {l : Library} (h : l.Storable) :
    decodeLibrary (encodeLibrary l) = .ok l := by
  have htypes : decodeList decodeLibraryType (.list encodeLibraryType l.types) = .ok l.types :=
    decodeList_list fun t ht => decodeLibraryType_encodeLibraryType (h t ht)
  rw [decodeLibrary, encodeLibrary, decodeObject, ok_bind]
  refine bind_member rfl rfl ?_
  exact bind_member rfl htypes rfl

end Document

/-! ## Modules -/

/-- Are all parts of the module read back from a document, as far as they are no ids? -/
structure Module.Storable (m : Module) : Prop where
  methods : ∀ t ∈ m.types, ∀ d ∈ t.methods, d.Storable
  imports : ∀ r ∈ m.imports.entries, r.Storable
  references : ∀ l ∈ m.references, l.Storable

/-- Are 32 bits enough for the ids in the module? -/
def Module.Addressable (m : Module) : Prop := ∀ t ∈ m.types, ∀ d ∈ t.methods, d.Addressable

instance decidableModuleAddressable (m : Module) : Decidable m.Addressable :=
  inferInstanceAs (Decidable (∀ t ∈ m.types, ∀ d ∈ t.methods, d.Addressable))

def TypeDef.renumbered (t : TypeDef) : TypeDef :=
  { t with methods := t.methods.map Method.renumbered }

/-- The module with positions for the ids of its bodies. -/
def Module.renumbered (m : Module) : Module := { m with types := m.types.map TypeDef.renumbered }

theorem Module.addressable_renumbered {m : Module} : m.renumbered.Addressable ↔ m.Addressable := by
  simp only [Addressable, renumbered, TypeDef.renumbered, List.forall_mem_map,
    Method.addressable_renumbered]

theorem traverse_map {α β γ : Type} (f : β → Except CodeError γ) (g : α → β) (l : List α) :
    traverse f (l.map g) = traverse (fun a => f (g a)) l := by
  induction l with
  | nil => rfl
  | cons a rest ih => rw [List.map_cons, traverse, ih, traverse]

theorem traverse_eq_map {α β : Type} {f : α → Except CodeError β} {g : α → β} {l : List α}
    (h : ∀ a ∈ l, f a = .ok (g a)) : traverse f l = .ok (l.map g) := by
  induction l with
  | nil => rfl
  | cons a rest ih =>
    rw [traverse, h a List.mem_cons_self, ih fun b hb => h b (List.mem_cons_of_mem _ hb)]
    rfl

namespace Document

variable {t : TypeDef} {m : Module}

/-- The document of a type whose methods are in good order. -/
def typeDocument (t : TypeDef) : Json :=
  .obj [("name", .str t.name), ("methods", .list methodDocument t.methods)]

/-- The document of a module whose methods are in good order. -/
def moduleDocument (m : Module) : Json :=
  .obj [("name", .str m.name), ("metadata_only", .bool m.metadataOnly),
    ("types", .list typeDocument m.types), ("imports", .list encodeMemberRef m.imports.entries),
    ("references", .list encodeLibrary m.references)]

theorem encodeTypeDef_eq (h : ∀ d ∈ t.methods, d.Storable) :
    encodeTypeDef t = .ok (typeDocument t) := by
  rw [encodeTypeDef, traverse_eq_map fun d hd => encodeMethod_eq (h d hd)]
  rfl

theorem encodeTypeDef_renumbered (h : ∀ d ∈ t.methods, d.Storable) :
    encodeTypeDef t.renumbered = .ok (typeDocument t) := by
  have hmethods : traverse encodeMethod t.renumbered.methods =
      .ok (t.methods.map methodDocument) := by
    rw [TypeDef.renumbered, traverse_map]
    exact traverse_eq_map fun d hd => encodeMethod_renumbered (h d hd)
  rw [encodeTypeDef, hmethods]
  rfl

/-- Every module in good order has a document. -/
theorem encodeModule_eq (h : m.Storable) : encodeModule m = .ok (moduleDocument m) := by
  rw [encodeModule, traverse_eq_map fun t ht => encodeTypeDef_eq (h.methods t ht)]
  rfl

/-- Positions for ids are written the same. -/
theorem encodeModule_renumbered (h : m.Storable) :
    encodeModule m.renumbered = .ok (moduleDocument m) := by
  have htypes : traverse encodeTypeDef m.renumbered.types = .ok (m.types.map typeDocument) := by
    rw [Module.renumbered, traverse_map]
    exact traverse_eq_map fun t ht => encodeTypeDef_renumbered (h.methods t ht)
  rw [encodeModule, htypes]
  rfl

theorem decodeTypeDef_typeDocument (h : ∀ d ∈ t.methods, d.Storable)
    (ha : ∀ d ∈ t.methods, d.Addressable) :
    decodeTypeDef (typeDocument t) = .ok t.renumbered := by
  have hmethods : decodeList decodeMethod (.list methodDocument t.methods) =
      .ok t.renumbered.methods :=
    decodeList_map fun d hd => decodeMethod_methodDocument (h d hd) (ha d hd)
  rw [decodeTypeDef, typeDocument, decodeObject, ok_bind]
  refine bind_member rfl hmethods ?_
  exact bind_member rfl rfl rfl

/-- The document of a module is read as the module with positions for ids. -/
theorem decodeModule_moduleDocument (h : m.Storable) (ha : m.Addressable) :
    decodeModule (moduleDocument m) = .ok m.renumbered := by
  have himports : decodeList decodeMemberRef (.list encodeMemberRef m.imports.entries) =
      .ok m.imports.entries :=
    decodeList_list fun r hr => decodeMemberRef_encodeMemberRef (h.imports r hr)
  have hreferences : decodeList decodeLibrary (.list encodeLibrary m.references) =
      .ok m.references :=
    decodeList_list fun l hl => decodeLibrary_encodeLibrary (h.references l hl)
  have htypes : decodeList decodeTypeDef (.list typeDocument m.types) = .ok m.renumbered.types :=
    decodeList_map fun t ht => decodeTypeDef_typeDocument (h.methods t ht) (ha t ht)
  rw [decodeModule, moduleDocument, decodeObject, ok_bind]
  refine bind_member rfl himports ?_
  refine bind_member rfl rfl ?_
  refine bind_member rfl rfl ?_
  refine bind_member rfl hreferences ?_
  exact bind_member rfl htypes rfl

end Document

end Interpose
