import Mathlib.Data.List.Perm.Subperm
import Interpose.Proofs.Document.Codec
/-!
# Modules that were read

What was read from a document can be written to one and read back: its types have names that mean
them, its ids have 32 bits, and its bodies name nothing outside themselves.

Results:
* `storable_of_decodeModule`: a module that was read has its parts in good order.
* `closed_of_decodeModule`: its bodies are closed.
* `renumbered_of_decodeModule`: its ids are positions.
* `decodeModule_moduleDocument_iff`: a module in good order reads back if 32 bits are enough, and
  only then.
* `readsBack_iff_exists`: the modules that read back as they are.
-/
namespace Interpose

theorem Binary64.canonical_canonical (x : Binary64) : x.canonical.canonical = x.canonical := by
  by_cases h : x.isNaN = true
  · have hnan : x.canonical = nan := if_pos h
    rw [hnan]
    decide
  · have hself : x.canonical = x := if_neg h
    rw [hself, hself]

namespace Document

variable {j : Json}

section

variable {α : Type} {dec : Json → Decoded α} {a : α} {members : List (String × Json)}
  {key : String}

theorem exists_of_decodeItems {items : List Json} {as : List α}
    (h : decodeItems dec items = .ok as) (ha : a ∈ as) : ∃ j, dec j = .ok a := by
  induction items generalizing as with
  | nil =>
    cases h
    cases ha
  | cons j rest ih =>
    obtain ⟨a', hj, h⟩ := bind_eq_ok.1 h
    obtain ⟨as', hrest, h⟩ := bind_eq_ok.1 h
    cases h
    rcases List.mem_cons.1 ha with rfl | ha
    · exact ⟨j, hj⟩
    · exact ih hrest ha

theorem exists_of_decodeMember? (h : decodeMember? members key dec = .ok (some a)) :
    ∃ j, dec j = .ok a := by
  unfold decodeMember? at h
  split at h
  · cases h
  · next j _ =>
    obtain ⟨a', hj, ha⟩ := map_eq_ok.1 h
    cases ha
    exact ⟨j, hj⟩

/-- Each item of a member that is a list was read. -/
theorem exists_of_mem_member {as? : Option (List α)}
    (h : decodeMember? members key (decodeList dec) = .ok as?) (ha : a ∈ as?.getD []) :
    ∃ j, dec j = .ok a := by
  cases as? with
  | none => cases ha
  | some as =>
    obtain ⟨j, hj⟩ := exists_of_decodeMember? h
    unfold decodeList at hj
    split at hj
    · cases hj
      cases ha
    · exact exists_of_decodeItems hj ha
    · cases hj

end

theorem lt_of_decodeNat {limit n : Nat} (h : decodeNat limit j = .ok n) : n < limit := by
  unfold decodeNat at h
  split at h
  · split at h
    · cases h
      omega
    · cases h
  · cases h

theorem wellNamed_of_decodeTy {t : Ty} (h : decodeTy j = .ok t) : t.WellNamed := by
  obtain ⟨s, -, h⟩ := bind_eq_ok.1 h
  split at h
  · next hparse =>
    cases h
    exact Ty.wellNamed_of_parse hparse
  · cases h

theorem canonical_of_decodeFloat {x : Binary64} (h : decodeFloat j = .ok x) : x.canonical = x := by
  obtain ⟨s, -, h⟩ := bind_eq_ok.1 h
  split at h
  · cases h
    decide
  · dsimp only at h
    split at h
    · cases h
      exact Binary64.canonical_canonical _
    · cases h

theorem storable_of_decodeOperand {o : Operand} (h : decodeOperand j = .ok o) :
    o.Storable ∧ ∀ id, o = .member id → id < 0x100000000 := by
  unfold decodeOperand at h
  split at h
  · cases h
    exact ⟨trivial, nofun⟩
  · split at h
    case h_3 =>
      obtain ⟨x, hx, rfl⟩ := map_eq_ok.1 h
      exact ⟨canonical_of_decodeFloat hx, nofun⟩
    case h_8 =>
      obtain ⟨t, ht, rfl⟩ := map_eq_ok.1 h
      exact ⟨wellNamed_of_decodeTy ht, nofun⟩
    case h_9 =>
      obtain ⟨id, hid, rfl⟩ := map_eq_ok.1 h
      refine ⟨trivial, fun id' heq => ?_⟩
      cases heq
      exact lt_of_decodeNat hid
    case h_10 => cases h
    all_goals
      obtain ⟨_, -, rfl⟩ := map_eq_ok.1 h
      exact ⟨trivial, nofun⟩
  · cases h

theorem need_eq_ok {α : Type} {a? : Option α} {a : α} : need a? = .ok a ↔ a? = some a := by
  cases a? with
  | none => exact ⟨nofun, nofun⟩
  | some b => exact ⟨fun h => congrArg some (Except.ok.inj h), fun h => by cases h; rfl⟩

/-- A member that must be there was read. -/
theorem exists_of_need {α : Type} {dec : Json → Decoded α} {members : List (String × Json)}
    {key : String} {a? : Option α} {a : α} (h : decodeMember? members key dec = .ok a?)
    (hneed : need a? = .ok a) : ∃ j, dec j = .ok a := by
  obtain rfl := need_eq_ok.1 hneed
  exact exists_of_decodeMember? h

theorem wellNamed_of_member {members : List (String × Json)} {key : String} {t? : Option Ty}
    (h : decodeMember? members key decodeTy = .ok t?) : (t?.getD .void).WellNamed := by
  cases t? with
  | none => trivial
  | some t =>
    obtain ⟨j, hj⟩ := exists_of_decodeMember? h
    exact wellNamed_of_decodeTy hj

theorem wellNamed_of_mem_member {members : List (String × Json)} {key : String}
    {ts? : Option (List Ty)} (h : decodeMember? members key (decodeList decodeTy) = .ok ts?) :
    ∀ t ∈ ts?.getD [], t.WellNamed := by
  intro t ht
  obtain ⟨j, hj⟩ := exists_of_mem_member h ht
  exact wellNamed_of_decodeTy hj

/-! ## Bodies -/

theorem storable_of_decodeInstruction {i : Instruction} (h : decodeInstruction j = .ok i) :
    i.operand.Storable ∧ ∀ id, i.operand = .member id → id < 0x100000000 := by
  unfold decodeInstruction at h
  obtain ⟨members, -, h⟩ := bind_eq_ok.1 h
  obtain ⟨op, -, h⟩ := bind_eq_ok.1 h
  obtain ⟨operand, hoperand, h⟩ := bind_eq_ok.1 h
  obtain ⟨op, -, h⟩ := bind_eq_ok.1 h
  cases h
  cases operand with
  | none => exact ⟨trivial, nofun⟩
  | some o =>
    obtain ⟨j', hj'⟩ := exists_of_decodeMember? hoperand
    exact storable_of_decodeOperand hj'

/-- What was read for a line of a body. -/
theorem storable_of_decodeLabelled {p : Nat × Instruction} (h : decodeLabelled j = .ok p) :
    p.1 < 0x100000000 ∧ p.2.operand.Storable ∧
      ∀ id, p.2.operand = .member id → id < 0x100000000 := by
  unfold decodeLabelled at h
  obtain ⟨members, -, h⟩ := bind_eq_ok.1 h
  obtain ⟨label?, hlabel, h⟩ := bind_eq_ok.1 h
  obtain ⟨i, hi, h⟩ := bind_eq_ok.1 h
  obtain ⟨label, hneed, h⟩ := bind_eq_ok.1 h
  cases h
  obtain ⟨j', hj'⟩ := exists_of_need hlabel hneed
  exact ⟨lt_of_decodeNat hj', storable_of_decodeInstruction hi⟩

theorem wellNamed_of_decodeSlot {s : Slot} (h : decodeSlot j = .ok s) : s.ty.WellNamed := by
  unfold decodeSlot at h
  obtain ⟨members, -, h⟩ := bind_eq_ok.1 h
  obtain ⟨name, -, h⟩ := bind_eq_ok.1 h
  obtain ⟨synthetic, -, h⟩ := bind_eq_ok.1 h
  obtain ⟨ty?, hty, h⟩ := bind_eq_ok.1 h
  obtain ⟨ty, hneed, h⟩ := bind_eq_ok.1 h
  cases h
  obtain ⟨j', hj'⟩ := exists_of_need hty hneed
  exact wellNamed_of_decodeTy hj'

/-- Labels that are different from each other number a body that 32 bits are enough for. -/
theorem length_le_of_labels {labels : List Nat} (hnodup : labels.Nodup)
    (hlt : ∀ n ∈ labels, n < 0x100000000) : labels.length ≤ 0x100000000 := by
  have hsub : labels ⊆ List.range 0x100000000 := fun n hn => List.mem_range.2 (hlt n hn)
  have hle := (hnodup.subperm hsub).length_le
  rwa [List.length_range] at hle

/-- A body that was read was numbered by labels. -/
theorem exists_of_decodeBody {b : Body} (h : decodeBody j = .ok b) :
    ∃ l : LabelledBody, l.decode = .ok b := by
  unfold decodeBody at h
  obtain ⟨members, -, h⟩ := bind_eq_ok.1 h
  obtain ⟨code?, -, h⟩ := bind_eq_ok.1 h
  obtain ⟨handlers, -, h⟩ := bind_eq_ok.1 h
  obtain ⟨locals, -, h⟩ := bind_eq_ok.1 h
  obtain ⟨maxStack, -, h⟩ := bind_eq_ok.1 h
  obtain ⟨code, -, h⟩ := bind_eq_ok.1 h
  exact ⟨_, mapError_eq_ok.1 h⟩

theorem storable_of_decodeBody {b : Body} (h : decodeBody j = .ok b) :
    b.Storable ∧ b.Addressable := by
  unfold decodeBody at h
  obtain ⟨members, -, h⟩ := bind_eq_ok.1 h
  obtain ⟨code?, hcode, h⟩ := bind_eq_ok.1 h
  obtain ⟨handlers, -, h⟩ := bind_eq_ok.1 h
  obtain ⟨locals, hlocals, h⟩ := bind_eq_ok.1 h
  obtain ⟨maxStack, -, h⟩ := bind_eq_ok.1 h
  obtain ⟨code, hneed, h⟩ := bind_eq_ok.1 h
  have hclosed := Body.closed_of_decode (mapError_eq_ok.1 h)
  obtain ⟨hnodup, -, rfl⟩ := LabelledBody.decode_eq_ok_iff.1 (mapError_eq_ok.1 h)
  obtain rfl := need_eq_ok.1 hneed
  have hlines (p : Nat × Instruction) (hp : p ∈ code) : p.1 < 0x100000000 ∧
      p.2.operand.Storable ∧ ∀ id, p.2.operand = .member id → id < 0x100000000 := by
    obtain ⟨j', hj'⟩ := exists_of_mem_member hcode hp
    exact storable_of_decodeLabelled hj'
  have hindexed (i : Instruction)
      (hi : i ∈ (LabelledBody.mk (locals.getD []).toArray code (handlers.getD [])
        (maxStack.getD 0)).indexed.code) : ∃ p ∈ code, ∃ f, i = p.2.retarget f := by
    rw [LabelledBody.indexed, Body.code_ofParts, List.map_map] at hi
    obtain ⟨p, hp, rfl⟩ := List.mem_map.1 hi
    exact ⟨p, hp, _, rfl⟩
  refine ⟨⟨fun s hs => ?_, Body.closed_iff.1 hclosed, fun i hi => ?_⟩, ⟨?_, fun i hi id hid => ?_⟩⟩
  · obtain ⟨j', hj'⟩ := exists_of_mem_member hlocals hs
    exact wellNamed_of_decodeSlot hj'
  · obtain ⟨p, hp, f, rfl⟩ := hindexed i hi
    exact (Instruction.storable_retarget f).2 (hlines p hp).2.1
  · have hlength := length_le_of_labels hnodup fun n hn => by
      obtain ⟨p, hp, rfl⟩ := List.mem_map.1 hn
      exact (hlines p hp).1
    rw [LabelledBody.labels, List.length_map] at hlength
    rwa [LabelledBody.indexed, Body.size_ofParts, List.length_map, List.length_map]
  · obtain ⟨p, hp, f, rfl⟩ := hindexed i hi
    rw [Instruction.member?_retarget] at hid
    exact (hlines p hp).2.2 id (Instruction.operand_of_member? hid)

/-! ## Methods and members -/

theorem wellNamed_of_decodeParameter {p : Parameter} (h : decodeParameter j = .ok p) :
    p.ty.WellNamed := by
  unfold decodeParameter at h
  obtain ⟨members, -, h⟩ := bind_eq_ok.1 h
  obtain ⟨index?, -, h⟩ := bind_eq_ok.1 h
  obtain ⟨name?, -, h⟩ := bind_eq_ok.1 h
  obtain ⟨ty?, hty, h⟩ := bind_eq_ok.1 h
  obtain ⟨index, -, h⟩ := bind_eq_ok.1 h
  obtain ⟨name, -, h⟩ := bind_eq_ok.1 h
  obtain ⟨ty, hneed, h⟩ := bind_eq_ok.1 h
  cases h
  obtain ⟨j', hj'⟩ := exists_of_need hty hneed
  exact wellNamed_of_decodeTy hj'

/-- Each part of a method that was read was read. -/
theorem exists_of_decodeMethod {d : Method} (h : decodeMethod j = .ok d) :
    (∀ p ∈ d.params, ∃ j', decodeParameter j' = .ok p) ∧ d.returnType.WellNamed ∧
      ∀ b, d.body? = some b → ∃ j', decodeBody j' = .ok b := by
  unfold decodeMethod at h
  obtain ⟨members, -, h⟩ := bind_eq_ok.1 h
  obtain ⟨attributes, -, h⟩ := bind_eq_ok.1 h
  obtain ⟨body, hbody, h⟩ := bind_eq_ok.1 h
  obtain ⟨flags, -, h⟩ := bind_eq_ok.1 h
  obtain ⟨name, -, h⟩ := bind_eq_ok.1 h
  obtain ⟨params, hparams, h⟩ := bind_eq_ok.1 h
  obtain ⟨returnType, hreturn, h⟩ := bind_eq_ok.1 h
  obtain ⟨name, -, h⟩ := bind_eq_ok.1 h
  cases h
  refine ⟨fun p => exists_of_mem_member hparams, wellNamed_of_member hreturn, fun b hb => ?_⟩
  obtain rfl : body = some (some b) := Option.join_eq_some_iff.1 hb
  obtain ⟨j', hj'⟩ := exists_of_decodeMember? hbody
  unfold decodeNullable at hj'
  split at hj'
  · cases hj'
  · obtain ⟨b', hb', heq⟩ := map_eq_ok.1 hj'
    cases heq
    exact ⟨_, hb'⟩

theorem storable_of_decodeMethod {d : Method} (h : decodeMethod j = .ok d) :
    d.Storable ∧ d.Addressable := by
  obtain ⟨hparams, hreturn, hbody⟩ := exists_of_decodeMethod h
  have hread (b : Body) (hb : d.body? = some b) : b.Storable ∧ b.Addressable := by
    obtain ⟨j', hj'⟩ := hbody b hb
    exact storable_of_decodeBody hj'
  refine ⟨⟨fun p hp => ?_, hreturn, fun b hb => (hread b hb).1⟩, fun b hb => (hread b hb).2⟩
  obtain ⟨j', hj'⟩ := hparams p hp
  exact wellNamed_of_decodeParameter hj'

theorem storable_of_decodeMemberRef {r : MemberRef} (h : decodeMemberRef j = .ok r) :
    r.Storable := by
  unfold decodeMemberRef at h
  obtain ⟨members, -, h⟩ := bind_eq_ok.1 h
  obtain ⟨isStatic, -, h⟩ := bind_eq_ok.1 h
  obtain ⟨name, -, h⟩ := bind_eq_ok.1 h
  obtain ⟨owner, -, h⟩ := bind_eq_ok.1 h
  obtain ⟨params, hparams, h⟩ := bind_eq_ok.1 h
  obtain ⟨returnType, hreturn, h⟩ := bind_eq_ok.1 h
  obtain ⟨scope, -, h⟩ := bind_eq_ok.1 h
  obtain ⟨scope, -, h⟩ := bind_eq_ok.1 h
  obtain ⟨owner, -, h⟩ := bind_eq_ok.1 h
  obtain ⟨name, -, h⟩ := bind_eq_ok.1 h
  cases h
  exact ⟨wellNamed_of_mem_member hparams, wellNamed_of_member hreturn⟩

theorem storable_of_decodeSignature {s : Signature} (h : decodeSignature j = .ok s) :
    s.Storable := by
  unfold decodeSignature at h
  obtain ⟨members, -, h⟩ := bind_eq_ok.1 h
  obtain ⟨isStatic, -, h⟩ := bind_eq_ok.1 h
  obtain ⟨name, -, h⟩ := bind_eq_ok.1 h
  obtain ⟨params, hparams, h⟩ := bind_eq_ok.1 h
  obtain ⟨returnType, hreturn, h⟩ := bind_eq_ok.1 h
  obtain ⟨name, -, h⟩ := bind_eq_ok.1 h
  cases h
  exact ⟨wellNamed_of_mem_member hparams, wellNamed_of_member hreturn⟩

theorem storable_of_decodeLibraryType {t : LibraryType} (h : decodeLibraryType j = .ok t) :
    ∀ s ∈ t.methods, s.Storable := by
  unfold decodeLibraryType at h
  obtain ⟨members, -, h⟩ := bind_eq_ok.1 h
  obtain ⟨methods, hmethods, h⟩ := bind_eq_ok.1 h
  obtain ⟨name, -, h⟩ := bind_eq_ok.1 h
  obtain ⟨name, -, h⟩ := bind_eq_ok.1 h
  cases h
  intro s hs
  obtain ⟨j', hj'⟩ := exists_of_mem_member hmethods hs
  exact storable_of_decodeSignature hj'

theorem storable_of_decodeLibrary {l : Library} (h : decodeLibrary j = .ok l) : l.Storable := by
  unfold decodeLibrary at h
  obtain ⟨members, -, h⟩ := bind_eq_ok.1 h
  obtain ⟨name, -, h⟩ := bind_eq_ok.1 h
  obtain ⟨types, htypes, h⟩ := bind_eq_ok.1 h
  obtain ⟨name, -, h⟩ := bind_eq_ok.1 h
  cases h
  intro t ht
  obtain ⟨j', hj'⟩ := exists_of_mem_member htypes ht
  exact storable_of_decodeLibraryType hj'

/-! ## Modules -/

/-- Each method of a type that was read was read. -/
theorem exists_of_decodeTypeDef {t : TypeDef} (h : decodeTypeDef j = .ok t) :
    ∀ d ∈ t.methods, ∃ j', decodeMethod j' = .ok d := by
  unfold decodeTypeDef at h
  obtain ⟨members, -, h⟩ := bind_eq_ok.1 h
  obtain ⟨methods, hmethods, h⟩ := bind_eq_ok.1 h
  obtain ⟨name, -, h⟩ := bind_eq_ok.1 h
  obtain ⟨name, -, h⟩ := bind_eq_ok.1 h
  cases h
  exact fun d => exists_of_mem_member hmethods

/-- Each part of a module that was read was read. -/
theorem exists_of_decodeModule {m : Module} (h : decodeModule j = .ok m) :
    (∀ t ∈ m.types, ∃ j', decodeTypeDef j' = .ok t) ∧
    (∀ r ∈ m.imports.entries, ∃ j', decodeMemberRef j' = .ok r) ∧
    ∀ l ∈ m.references, ∃ j', decodeLibrary j' = .ok l := by
  unfold decodeModule at h
  obtain ⟨members, -, h⟩ := bind_eq_ok.1 h
  obtain ⟨imports, himports, h⟩ := bind_eq_ok.1 h
  obtain ⟨metadataOnly, -, h⟩ := bind_eq_ok.1 h
  obtain ⟨name, -, h⟩ := bind_eq_ok.1 h
  obtain ⟨references, hreferences, h⟩ := bind_eq_ok.1 h
  obtain ⟨types, htypes, h⟩ := bind_eq_ok.1 h
  obtain ⟨name, -, h⟩ := bind_eq_ok.1 h
  cases h
  exact ⟨fun t => exists_of_mem_member htypes, fun r => exists_of_mem_member himports,
    fun l => exists_of_mem_member hreferences⟩

/-- A module that was read has its parts in good order. -/
theorem storable_of_decodeModule {m : Module} (h : decodeModule j = .ok m) :
    m.Storable ∧ m.Addressable := by
  obtain ⟨htypes, himports, hreferences⟩ := exists_of_decodeModule h
  have hread (t : TypeDef) (ht : t ∈ m.types) (d : Method) (hd : d ∈ t.methods) :
      d.Storable ∧ d.Addressable := by
    obtain ⟨jt, hjt⟩ := htypes t ht
    obtain ⟨jd, hjd⟩ := exists_of_decodeTypeDef hjt d hd
    exact storable_of_decodeMethod hjd
  refine ⟨⟨fun t ht d hd => (hread t ht d hd).1, fun r hr => ?_, fun l hl => ?_⟩,
    fun t ht d hd => (hread t ht d hd).2⟩
  · obtain ⟨j', hj'⟩ := himports r hr
    exact storable_of_decodeMemberRef hj'
  · obtain ⟨j', hj'⟩ := hreferences l hl
    exact storable_of_decodeLibrary hj'

/-- All bodies of a module that was read are closed. -/
theorem closed_of_decodeModule {m : Module} (h : decodeModule j = .ok m) {t : TypeDef}
    (ht : t ∈ m.types) {d : Method} (hd : d ∈ t.methods) {b : Body} (hb : d.body? = some b) :
    b.Closed :=
  Body.closed_iff.2 (((storable_of_decodeModule h).1.methods t ht d hd).body b hb).references

/-- A module that was read has positions for the ids of its bodies already. -/
theorem renumbered_of_decodeModule {m : Module} (h : decodeModule j = .ok m) :
    m.renumbered = m := by
  have hbody {t : TypeDef} (ht : t ∈ m.types) {d : Method} (hd : d ∈ t.methods) {b : Body}
      (hb : d.body? = some b) : b.renumbered = b := by
    obtain ⟨jt, hjt⟩ := (exists_of_decodeModule h).1 t ht
    obtain ⟨jd, hjd⟩ := exists_of_decodeTypeDef hjt d hd
    obtain ⟨jb, hjb⟩ := (exists_of_decodeMethod hjd).2.2 b hb
    obtain ⟨l, hl⟩ := exists_of_decodeBody hjb
    exact Body.renumbered_of_decode hl
  have hmethod {t : TypeDef} (ht : t ∈ m.types) {d : Method} (hd : d ∈ t.methods) :
      d.renumbered = d := by
    obtain ⟨name, flags, params, returnType, attributes, body?⟩ := d
    cases body? with
    | none => rfl
    | some b => rw [Method.renumbered, Option.map_some, hbody ht hd rfl]
  have htype {t : TypeDef} (ht : t ∈ m.types) : t.renumbered = t := by
    rw [TypeDef.renumbered, List.map_congr_left fun d hd => hmethod ht hd, List.map_id']
  rw [Module.renumbered, List.map_congr_left fun t ht => htype ht, List.map_id']

/-- A module in good order reads back if 32 bits are enough for its ids, and only then. -/
theorem decodeModule_moduleDocument_iff {m : Module} (h : m.Storable) :
    decodeModule (moduleDocument m) = .ok m.renumbered ↔ m.Addressable := by
  refine ⟨fun hread => ?_, decodeModule_moduleDocument h⟩
  exact Module.addressable_renumbered.1 (storable_of_decodeModule hread).2

end Document

/-! ## Modules that read back -/

/-- The module is read from its own document as it is. -/
def Module.ReadsBack (m : Module) : Prop :=
  ∃ j, Document.encodeModule m = .ok j ∧ Document.decodeModule j = .ok m

namespace Document

theorem renumbered_eq_self_iff {m : Module} :
    m.renumbered = m ↔ m.types.map TypeDef.renumbered = m.types := by
  constructor
  · intro h
    exact congrArg Module.types h
  · intro h
    rw [Module.renumbered, h]

theorem readsBack_iff {m : Module} :
    m.ReadsBack ↔ m.Storable ∧ m.Addressable ∧ m.renumbered = m := by
  constructor
  · rintro ⟨j, -, hread⟩
    obtain ⟨hstorable, haddressable⟩ := storable_of_decodeModule hread
    exact ⟨hstorable, haddressable, renumbered_of_decodeModule hread⟩
  · rintro ⟨hstorable, haddressable, hsame⟩
    exact ⟨_, encodeModule_eq hstorable,
      (decodeModule_moduleDocument hstorable haddressable).trans (congrArg Except.ok hsame)⟩

/-- The modules that read back are those that can be read at all. -/
theorem readsBack_iff_exists {m : Module} : m.ReadsBack ↔ ∃ j, decodeModule j = .ok m := by
  constructor
  · rintro ⟨j, -, hread⟩
    exact ⟨j, hread⟩
  · rintro ⟨j, hread⟩
    obtain ⟨hstorable, haddressable⟩ := storable_of_decodeModule hread
    exact readsBack_iff.2 ⟨hstorable, haddressable, renumbered_of_decodeModule hread⟩

end Document

end Interpose
