import Jyth.Lib.Words

/-!
# Netlink attributes

`push_attr` and the attribute loop of `init/src/ops/netlink.rs`.  Writer and reader round up
to multiples of four on their own: the one the length of the payload, the other the length of
the attribute.
-/

namespace Jyth.Netlink

open Format List

/-- A netlink attribute. -/
structure Attr where
  type : UInt16
  value : Bytes
deriving DecidableEq

def attrHdrLen : Nat := 4

def nlmsgAlign (len : Nat) : Nat := (len + 3) / 4 * 4

def pushAttr (payload : Bytes) (attr : Attr) : Bytes :=
  let len := attrHdrLen + attr.value.length
  let payload := payload ++ leBytes (UInt16.ofNat len) ++ leBytes attr.type ++ attr.value
  payload ++ replicate (nlmsgAlign payload.length - payload.length) 0

/-- `buffer[start..stop]`; a range outside of the buffer panics. -/
def slice (buffer : Bytes) (start stop : Nat) : Option Bytes :=
  if start ≤ stop ∧ stop ≤ buffer.length then some ((buffer.drop start).take (stop - start))
  else none

/-- The attributes the loop looks at, each with its offset; it returns at the first that
passes the test. -/
def walk (test : Attr → Bool) (buffer : Bytes) (stop offset : Nat) : Option (List (Nat × Attr)) :=
  if offset + attrHdrLen ≤ stop then do
    let attrLen ← ofLE <$> slice buffer offset (offset + 2)
    let attrType ← (UInt16.ofNat ∘ ofLE) <$> slice buffer (offset + 2) (offset + 4)
    if _h : attrLen < attrHdrLen ∨ stop < offset + attrLen then return []
    else do
      let value ← slice buffer (offset + attrHdrLen) (offset + attrLen)
      if test ⟨attrType, value⟩ then return [(offset, ⟨attrType, value⟩)]
      else
        let rest ← walk test buffer stop (offset + nlmsgAlign attrLen)
        return (offset, ⟨attrType, value⟩) :: rest
  else return []
termination_by stop - offset
decreasing_by
  unfold attrHdrLen at *
  unfold nlmsgAlign
  omega

theorem le_nlmsgAlign (len : Nat) : len ≤ nlmsgAlign len := by
  unfold nlmsgAlign
  omega

/-! ## Reading -/

theorem slice_of_le {buffer : Bytes} {start stop : Nat} (hle : start ≤ stop)
    (hstop : stop ≤ buffer.length) :
    slice buffer start stop = some ((buffer.drop start).take (stop - start)) :=
  if_pos ⟨hle, hstop⟩

theorem isSome_walk (test : Attr → Bool) {buffer : Bytes} {stop : Nat}
    (hstop : stop ≤ buffer.length) (offset : Nat) : (walk test buffer stop offset).isSome := by
  fun_induction walk with
  | case1 offset hle ih =>
    unfold attrHdrLen at *
    rw [slice_of_le (by omega) (by omega), slice_of_le (by omega) (by omega)]
    simp only [Option.map_eq_map, Option.map_some, Option.bind_eq_bind, Option.bind_some]
    split
    · rfl
    · next hlen =>
      rw [slice_of_le (by omega) (by omega), Option.bind_some]
      split
      · rfl
      · obtain ⟨rest, hrest⟩ := Option.isSome_iff_exists.1 (ih _ hlen)
        rw [hrest]
        rfl
  | case2 => rfl

theorem slice_take {buffer : Bytes} {start last stop : Nat} (hlast : last ≤ stop)
    (hstop : stop ≤ buffer.length) : slice (buffer.take stop) start last = slice buffer start last := by
  have hbound : last ≤ (buffer.take stop).length ↔ last ≤ buffer.length := by
    rw [length_take]
    omega
  simp only [slice, hbound, drop_take, take_take, Nat.min_eq_left (Nat.sub_le_sub_right hlast start)]

/-- What stands behind the end of the payload is never read. -/
theorem walk_take (test : Attr → Bool) {buffer : Bytes} {stop : Nat} (hstop : stop ≤ buffer.length)
    (offset : Nat) : walk test (buffer.take stop) stop offset = walk test buffer stop offset := by
  fun_induction walk test buffer stop offset with
  | case1 offset hle ih =>
    have hheader : offset + 4 ≤ stop := hle
    rw [walk, if_pos hle, slice_take (by omega) hstop, slice_take (by omega) hstop]
    refine bind_congr fun attrLen => bind_congr fun attrType => ?_
    split
    · rfl
    · next hlen =>
      rw [slice_take (by omega) hstop, ih attrLen hlen]
  | case2 offset hle => rw [walk, if_neg hle]

/-! ## Reading what was written -/

theorem length_pushAttr {payload : Bytes} (h : 4 ∣ payload.length) (attr : Attr) :
    (pushAttr payload attr).length =
      payload.length + nlmsgAlign (attrHdrLen + attr.value.length) := by
  simp [pushAttr, Word.bytes]
  unfold attrHdrLen nlmsgAlign
  omega

theorem prefix_foldl_pushAttr (attrs : List Attr) (payload : Bytes) :
    payload <+: attrs.foldl pushAttr payload := by
  induction attrs generalizing payload with
  | nil => exact prefix_rfl
  | cons attr attrs ih =>
    refine IsPrefix.trans ?_ (ih (pushAttr payload attr))
    simp only [pushAttr, append_assoc]
    exact prefix_append _ _

theorem slice_append (front mid back : Bytes) {buffer : Bytes} {start stop : Nat}
    (h : front ++ (mid ++ back) = buffer) (hstart : start = front.length)
    (hstop : stop = start + mid.length) : slice buffer start stop = some mid := by
  subst h hstart hstop
  simp [slice]

theorem walk_pushAttr {attr : Attr} (h : attr.value.length < 65532) {base buffer back : Bytes}
    {stop : Nat} (hbuffer : pushAttr base attr ++ back = buffer)
    (hstop : base.length + (attrHdrLen + attr.value.length) ≤ stop) :
    walk (fun _ => false) buffer stop base.length = (walk (fun _ => false) buffer stop
      (base.length + nlmsgAlign (attrHdrLen + attr.value.length))).map ((base.length, attr) :: ·) := by
  obtain ⟨len, hlen⟩ : ∃ len, len = UInt16.ofNat (attrHdrLen + attr.value.length) := ⟨_, rfl⟩
  have hnat : len.toNat = attrHdrLen + attr.value.length := by
    rw [hlen, UInt16.toNat_ofNat']
    unfold attrHdrLen
    omega
  simp only [pushAttr, append_assoc, ← hlen] at hbuffer
  have hword : ∀ word : UInt16, ofLE (leBytes word) = word.toNat := fun word =>
    ofLE_toLE _ _ (Word.toNat_lt word)
  have hheader : slice buffer base.length (base.length + 2) = some (leBytes len) :=
    slice_append base _ _ hbuffer rfl rfl
  have htype : slice buffer (base.length + 2) (base.length + 4) = some (leBytes attr.type) :=
    slice_append (base ++ leBytes len) _ _ (by rw [← hbuffer, append_assoc])
      (by rw [length_append]; rfl) rfl
  have hvalue : slice buffer (base.length + attrHdrLen) (base.length + len.toNat) =
      some attr.value :=
    slice_append (base ++ (leBytes len ++ leBytes attr.type)) _ _
      (by rw [← hbuffer, append_assoc, append_assoc]) (by rw [length_append]; rfl)
      (by rw [hnat, Nat.add_assoc])
  have hfits : ¬(len.toNat < attrHdrLen ∨ stop < base.length + len.toNat) := by omega
  rw [walk, if_pos (by omega), hheader, htype, ← hnat]
  simp only [Option.map_eq_map, Option.map_some, Option.bind_eq_bind, Option.bind_some, hword,
    dif_neg hfits, hvalue, Function.comp_apply, UInt16.ofNat_toNat, Bool.false_eq_true, if_false]
  cases walk (fun _ => false) buffer stop (base.length + nlmsgAlign len.toNat) <;> rfl

theorem walk_foldl_pushAttr {attrs : List Attr}
    (hattrs : ∀ attr ∈ attrs, attr.value.length < 65532) {base : Bytes} (h : 4 ∣ base.length)
    (back : Bytes) : ∃ walked, walk (fun _ => false) (attrs.foldl pushAttr base ++ back)
        (attrs.foldl pushAttr base).length base.length = some walked ∧
      walked.map Prod.snd = attrs ∧ ∀ entry ∈ walked, 4 ∣ entry.1 := by
  induction attrs generalizing base with
  | nil =>
    rw [walk, if_neg (by simp [attrHdrLen])]
    exact ⟨[], rfl, rfl, nofun⟩
  | cons attr attrs ih =>
    obtain ⟨hattr, hattrs⟩ := forall_mem_cons.1 hattrs
    have hpush := length_pushAttr h attr
    have haligned : 4 ∣ (pushAttr base attr).length :=
      hpush ▸ Nat.dvd_add h (Nat.dvd_mul_left 4 _)
    obtain ⟨walked, hwalk, hmap, hstart⟩ := ih hattrs haligned
    obtain ⟨more, hmore⟩ := prefix_foldl_pushAttr attrs (pushAttr base attr)
    have hlength := congrArg length hmore
    rw [length_append, hpush] at hlength
    rw [hpush] at hwalk
    refine ⟨(base.length, attr) :: walked, ?_, by rw [map_cons, hmap], forall_mem_cons.2 ⟨h, hstart⟩⟩
    rw [foldl_cons, walk_pushAttr hattr (by rw [← hmore, append_assoc]), hwalk]
    · rfl
    · have hle := le_nlmsgAlign (attrHdrLen + attr.value.length)
      omega

/-- **Netlink attributes.**  Whatever the buffer holds, the loop ends, and it reads nothing
behind the end of the payload: with the buffer cut off there no slice is out of range, and the
loop meets the same.  What was pushed to a payload of full words is met in order, at multiples of
four. -/
theorem attrs_round_trip :
    (∀ (test : Attr → Bool) (buffer : Bytes) (stop offset : Nat), stop ≤ buffer.length →
      (walk test (buffer.take stop) stop offset).isSome ∧
        walk test buffer stop offset = walk test (buffer.take stop) stop offset) ∧
    ∀ (attrs : List Attr) (base back : Bytes), 4 ∣ base.length →
      (∀ attr ∈ attrs, attr.value.length < 65532) →
      ∃ walked, walk (fun _ => false) (attrs.foldl pushAttr base ++ back)
          (attrs.foldl pushAttr base).length base.length = some walked ∧
        walked.map Prod.snd = attrs ∧ ∀ entry ∈ walked, 4 ∣ entry.1 :=
  ⟨fun test _ _ offset hstop => ⟨isSome_walk test (length_take_of_le hstop).ge offset,
      (walk_take test hstop offset).symm⟩,
    fun _ _ back h hattrs => walk_foldl_pushAttr hattrs h back⟩

end Jyth.Netlink
