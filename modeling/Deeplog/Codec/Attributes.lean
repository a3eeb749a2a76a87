import Deeplog.Codec.Container
import Deeplog.Codec.Reserve

/-!
# The size of attributes

`cbor_attribute_map` resizes a vector to what `size_of` has measured, lets `encode` write into it,
and every container header is given all of the vector. A code is measured with the nine bytes of a
large domain id; where the id takes fewer, the vector ends with zeros that nothing has written.
-/

namespace Deeplog.Codec

open Cbor (Bytes)

/-- What deeppack emits for a string, a float or a bool is one item. -/
structure ItemPrimitives extends ContainerPrimitives where
  emitU8string_item : ∀ bs : Bytes, bs.length < 2 ^ 64 → Cbor.Item (emitU8string bs)
  encodeFloat_item : ∀ x, Cbor.Item (encodeFloat x)
  encodeDouble_item : ∀ x, Cbor.Item (encodeDouble x)
  encodeBool_item : ∀ x, Cbor.Item (encodeBool x)

def plainItems : ItemPrimitives where
  toContainerPrimitives := plainContainers
  emitU8string_item _ hlen := Cbor.item_string (.inr rfl) hlen
  encodeFloat_item x := Cbor.item_special (by decide : 0 < 2) (by decide) x.toNat_lt
  encodeDouble_item x := Cbor.item_special (by decide : 0 < 3) (by decide) x.toNat_lt
  encodeBool_item x := by cases x <;> decide

/-- The id of a code's domain. -/
def Loggable.domainId : Loggable → Option UInt64
  | .systemCode code => some code.domainId
  | .statusCode code => some code.domainId
  | _ => none

/-- Its strings have sizes that strings can have. -/
def Loggable.Sized : Loggable → Prop
  | .string value => value.length < 2 ^ 64
  | .systemCode code => code.domainName.length < 2 ^ 64 ∧ code.message.length < 2 ^ 64
  | .statusCode code => code.domainName.length < 2 ^ 64 ∧ code.message.length < 2 ^ 64
  | _ => True

/-! ## Sizes -/

theorem encodeInt_length_lt_iff {n : Nat} : (Cbor.encodeInt n).length < 9 ↔ n < 2 ^ 32 := by
  have hpos : (0 : Int) ≤ n := Int.natCast_nonneg n
  simp only [Cbor.encodeInt, if_pos hpos, Int.toNat_natCast, Cbor.encodeHead]
  split_ifs <;> simp [Cbor.toBigEndian_length] <;> omega

section

variable (dp : ItemPrimitives) {args : AttributeArgs} {value : Loggable}

theorem emitInteger_uint64 (n : UInt64) :
    dp.emitInteger n.toNat = Cbor.encodeInt n.toNat := by
  have hlt := n.toNat_lt
  exact dp.emitInteger_eq _ (by omega) (by omega)

theorem shortDomain_iff :
    value.ShortDomain dp.toPrimitives ↔ ∃ id ∈ value.domainId, id.toNat < 2 ^ 32 := by
  cases value with
  | systemCode code | statusCode code =>
    have hlength := encodeInt_length_lt_iff (n := code.domainId.toNat)
    simp only [Loggable.ShortDomain, emitInteger_uint64, Loggable.domainId]
    simpa using hlength
  | _ => simp [Loggable.ShortDomain, Loggable.domainId]

/-- What `size_of` has measured and `encode` does not write. -/
theorem encodeAttributes_length_add (args : AttributeArgs) :
    (dp.encodeAttributes args).length +
      ((args.attributes.map Attribute.value).map dp.unusedSize).sum = dp.sizeOfAttributes args := by
  have hattributes (attrs : List Attribute) :
      (attrs.flatMap dp.encodeAnyAttribute).length +
        ((attrs.map Attribute.value).map dp.unusedSize).sum =
      (attrs.map fun attr =>
        (dp.emitInteger attr.id.toNat).length + dp.encodedSizeOf attr.value).sum := by
    induction attrs with
    | nil => rfl
    | cons attr attrs ih =>
      have hvalue := dp.encode_length_add attr.value
      simp only [List.flatMap_cons, List.length_append, List.map_cons, List.sum_cons,
        Primitives.encodeAnyAttribute]
      omega
  rw [Primitives.encodeAttributes, Primitives.sizeOfAttributes, List.length_append,
    ← hattributes]
  omega

theorem sizeOfAttributes_eq_iff : dp.sizeOfAttributes args = (dp.encodeAttributes args).length ↔
    ∀ attr ∈ args.attributes, ∀ id ∈ attr.value.domainId, 2 ^ 32 ≤ id.toNat := by
  have hlength := encodeAttributes_length_add dp args
  have hunused := dp.unusedSize_sum_pos_iff (args.attributes.map Attribute.value)
  simp only [shortDomain_iff, List.mem_map, exists_exists_and_eq_and] at hunused
  constructor
  · intro hsize attr hattr id hid
    by_contra hshort
    have hpos := hunused.mpr ⟨attr, hattr, id, hid, Nat.lt_of_not_le hshort⟩
    omega
  · intro hlarge
    have hzero : ¬0 < ((args.attributes.map Attribute.value).map dp.unusedSize).sum := by
      rw [hunused]
      rintro ⟨attr, hattr, id, hid, hshort⟩
      exact absurd (hlarge attr hattr id hid) (Nat.not_le_of_lt hshort)
    omega

theorem insertAttributes_of_size
    (h : dp.sizeOfAttributes args = (dp.encodeAttributes args).length) :
    dp.insertAttributes args = dp.encodeAttributes args := by
  simp [Primitives.insertAttributes, h]

/-! ## Items -/

theorem emitInteger_item {n : Int} (hlow : -2 ^ 63 ≤ n) (hhigh : n < 2 ^ 64) :
    Cbor.Item (dp.emitInteger n) := by
  rw [dp.emitInteger_eq n hlow hhigh]
  exact Cbor.item_encodeInt (by omega) hhigh

theorem emitInteger_uint64_item (n : UInt64) : Cbor.Item (dp.emitInteger n.toNat) := by
  have hlt := n.toNat_lt
  exact emitInteger_item dp (by omega) (by omega)

theorem emitInteger_int64_item (n : Int64) : Cbor.Item (dp.emitInteger n.toInt) := by
  have hlow := n.le_toInt
  have hhigh := n.toInt_lt
  exact emitInteger_item dp hlow (by omega)

theorem item_single {item : Bytes} (h : Cbor.Item item) : Cbor.Items 1 item := by
  have hitems := Cbor.Items.cons h .nil
  rwa [List.append_nil] at hitems

/-- Every value is one item. -/
theorem encode_item (h : value.Sized) : Cbor.Item (dp.encode value) := by
  cases value with
  | uint64 value => exact emitInteger_uint64_item dp value
  | int64 value => exact emitInteger_int64_item dp value
  | floatSingle bits => exact dp.encodeFloat_item bits
  | floatDouble bits => exact dp.encodeDouble_item bits
  | boolean value => exact dp.encodeBool_item value
  | string value => exact dp.emitU8string_item value h
  | systemCode code =>
    have hname := dp.emitU8string_item _ h.1
    have hmessage := item_single (dp.emitU8string_item _ h.2)
    have hitems := Cbor.Items.cons (emitInteger_uint64_item dp code.domainId)
      (.cons (emitInteger_int64_item dp code.value) (.cons hname hmessage))
    simp only [Primitives.encode, Primitives.encodeSystemCode, List.append_assoc,
      dp.emitArray_eq 4 (by decide)]
    exact Cbor.item_array (by decide) hitems
  | statusCode code =>
    have hname := dp.emitU8string_item _ h.1
    have hmessage := item_single (dp.emitU8string_item _ h.2)
    have hitems := Cbor.Items.cons (emitInteger_uint64_item dp code.domainId)
      (.cons hname hmessage)
    simp only [Primitives.encode, Primitives.encodeStatusCode, List.append_assoc,
      dp.emitArray_eq 3 (by decide)]
    exact Cbor.item_array (by decide) hitems

theorem encodeAnyAttribute_items {attr : Attribute} (h : attr.value.Sized) :
    Cbor.Items 2 (dp.encodeAnyAttribute attr) :=
  .cons (emitInteger_uint64_item dp attr.id) (item_single (encode_item dp h))

theorem encodeAttributes_mapItem (h : ∀ attr ∈ args.attributes, attr.value.Sized) :
    Cbor.MapItem (dp.encodeAttributes args) := by
  have hentries (attrs : List Attribute) (hsized : ∀ attr ∈ attrs, attr.value.Sized) :
      Cbor.Items (2 * attrs.length) (attrs.flatMap dp.encodeAnyAttribute) := by
    induction attrs with
    | nil => exact .nil
    | cons attr attrs ih =>
      obtain ⟨hattr, hrest⟩ := List.forall_mem_cons.mp hsized
      have hitems := (encodeAnyAttribute_items dp hattr).append (ih hrest)
      rwa [List.flatMap_cons, List.length_cons, Nat.mul_succ, Nat.add_comm]
  have hlength := args.length_le
  rw [Primitives.encodeAttributes, dp.emitMap_eq _ (by omega)]
  exact Cbor.mapItem_map (by omega) (hentries _ h)

/-- Zeros behind the map are more than a map, however few they are. -/
theorem insertAttributes_mapItem_iff (h : ∀ attr ∈ args.attributes, attr.value.Sized) :
    Cbor.MapItem (dp.insertAttributes args) ↔
      ∀ attr ∈ args.attributes, ∀ id ∈ attr.value.domainId, 2 ^ 32 ≤ id.toNat := by
  have hmap := encodeAttributes_mapItem dp h
  rw [← sizeOfAttributes_eq_iff dp]
  constructor
  · rintro ⟨hitem, -⟩
    have hskip : Cbor.skipItem (dp.insertAttributes args) =
        some ((),
          List.replicate (dp.sizeOfAttributes args - (dp.encodeAttributes args).length) 0) :=
      Cbor.skipItem_eq_some_iff.mpr ⟨_, hmap.1, rfl⟩
    have hzeros := (Prod.mk.inj (Option.some.inj (hskip.symm.trans hitem))).2
    have hlength := encodeAttributes_length_add dp args
    rw [List.replicate_eq_nil_iff] at hzeros
    omega
  · intro hsize
    rwa [insertAttributes_of_size dp hsize]

/-! ## Headers -/

theorem epoch_item {epoch : Sink.Epoch} (h : epoch.InRange) : Cbor.Item epoch.encode := by
  obtain ⟨⟨hslow, hshigh⟩, hmlow, hmhigh⟩ := h
  have hsystem := Cbor.item_encodeInt (n := epoch.systemReference) (by omega) (by omega)
  have hsteady := Cbor.item_encodeInt (n := epoch.steadyReference) (by omega) (by omega)
  rw [Sink.Epoch.encode, List.append_assoc]
  exact Cbor.item_array (by decide) (.cons hsystem (item_single hsteady))

theorem resource_mapItem {epoch : Sink.Epoch} (h : epoch.InRange) {attributes : Bytes}
    (hattributes : Cbor.Item attributes) : Cbor.MapItem (dp.resource epoch attributes) := by
  have hinteger (n : Nat) (hn : n < 24) : Cbor.Item (dp.emitInteger n) :=
    emitInteger_item dp (by omega) (by omega)
  have hitems := Cbor.Items.cons (hinteger 0 (by decide)) (.cons (hinteger 0 (by decide))
    (.cons (hinteger 4 (by decide)) (.cons (epoch_item h)
      (.cons (hinteger 23 (by decide)) (.cons hattributes .nil)))))
  rw [ContainerPrimitives.resource, dp.emitMap_eq 3 (by decide)]
  exact Cbor.mapItem_map (by decide) hitems

end

/-- The attributes are measured exactly, and their bytes are one map, in the vector as in the
header of a container, where the array of the records follows. -/
structure ExactAttributes (dp : ItemPrimitives) (args : AttributeArgs) : Prop where
  size : dp.sizeOfAttributes args = (dp.encodeAttributes args).length
  stored : Cbor.MapItem (dp.insertAttributes args)
  header : ∀ epoch : Sink.Epoch, epoch.InRange → ∃ resource, Cbor.MapItem resource ∧
    Sink.Backend.header epoch (dp.insertAttributes args) = Sink.magic ++ resource ++ [0x9f]

/-- Attributes are exact unless a code among them has a domain id of less than `2 ^ 32`. -/
theorem exactAttributes_iff (dp : ItemPrimitives) (args : AttributeArgs)
    (hsized : ∀ attr ∈ args.attributes, attr.value.Sized) :
    ExactAttributes dp args ↔
      ∀ attr ∈ args.attributes, ∀ id ∈ attr.value.domainId, 2 ^ 32 ≤ id.toNat := by
  constructor
  · intro h
    exact (sizeOfAttributes_eq_iff dp).mp h.size
  · intro h
    have hmap := (insertAttributes_mapItem_iff dp hsized).mpr h
    refine ⟨(sizeOfAttributes_eq_iff dp).mpr h, hmap, fun epoch hepoch => ?_⟩
    refine ⟨dp.resource epoch (dp.insertAttributes args), resource_mapItem dp hepoch hmap.1, ?_⟩
    have hne : dp.insertAttributes args ≠ [] := by
      intro hnil
      have hmajor := hmap.2
      rw [hnil] at hmajor
      cases hmajor
    rw [dp.header_eq, if_neg hne, List.append_assoc]

/-- A string and a code of a domain with a large id. -/
def codeAttributes (domainId : UInt64) : AttributeArgs :=
  ⟨[⟨2, .string [0x61]⟩, ⟨256, .statusCode ⟨domainId, [0x64], [0x6d]⟩⟩], by simp⟩

theorem exactAttributes_iff_code : ExactAttributes plainItems (codeAttributes 0x100000000) :=
  (exactAttributes_iff plainItems _ (by simp [codeAttributes, Loggable.Sized])).mpr
    (by simp [codeAttributes, Loggable.domainId])

/-- The id of the domain takes one byte: eight bytes of the vector are not written. -/
theorem exactAttributes_not : ¬∀ (dp : ItemPrimitives) (args : AttributeArgs),
    (∀ attr ∈ args.attributes, attr.value.Sized) → ExactAttributes dp args := by
  intro hall
  have hsize := (hall plainItems (codeAttributes 1)
    (by simp [codeAttributes, Loggable.Sized])).size
  revert hsize
  decide

end Deeplog.Codec
