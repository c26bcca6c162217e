import ThreeAddress.Proofs.Json.RoundTrip

set_option autoImplicit false

/-! # Trees with defaults left out

A record may be written without the optional fields that hold their default. `Json.Abridges` says
that one tree is another with some of these fields left out, at any depth. The decoders of records
find in an abridged record what they find in the whole one, provided that what they find in the
parts is the same. An abridged tree is as readable as the whole one. -/

namespace ThreeAddress.Json

variable {defaults : List (String × Json)}

mutual

/-- The second tree is the first without some of the members that hold their default. -/
inductive Abridges (defaults : List (String × Json)) : Json → Json → Prop
  | keep (v : Json) : Abridges defaults v v
  | array {items items' : List Json} (h : AbridgesItems defaults items items') :
      Abridges defaults (.array items) (.array items')
  | object {members members' : List (String × Json)}
      (h : AbridgesMembers defaults members members') :
      Abridges defaults (.object members) (.object members')

/-- The items are abridged one by one. -/
inductive AbridgesItems (defaults : List (String × Json)) : List Json → List Json → Prop
  | nil : AbridgesItems defaults [] []
  | cons {v v' : Json} {items items' : List Json} (hv : Abridges defaults v v')
      (h : AbridgesItems defaults items items') :
      AbridgesItems defaults (v :: items) (v' :: items')

/-- The members are abridged one by one, or left out if they hold their default. -/
inductive AbridgesMembers (defaults : List (String × Json)) :
    List (String × Json) → List (String × Json) → Prop
  | nil : AbridgesMembers defaults [] []
  | keep {key : String} {v v' : Json} {members members' : List (String × Json)}
      (hv : Abridges defaults v v') (h : AbridgesMembers defaults members members') :
      AbridgesMembers defaults ((key, v) :: members) ((key, v') :: members')
  | drop {m : String × Json} {members members' : List (String × Json)} (hm : m ∈ defaults)
      (h : AbridgesMembers defaults members members') :
      AbridgesMembers defaults (m :: members) members'

end

theorem AbridgesItems.refl (items : List Json) : AbridgesItems defaults items items := by
  induction items with
  | nil => exact .nil
  | cons v items ih => exact .cons (.keep v) ih

theorem AbridgesMembers.refl (members : List (String × Json)) :
    AbridgesMembers defaults members members := by
  induction members with
  | nil => exact .nil
  | cons m members ih => exact .keep (.keep m.2) ih

theorem Abridges.exists_array {items : List Json} {w : Json}
    (h : Abridges defaults (.array items) w) :
    ∃ items', w = .array items' ∧ AbridgesItems defaults items items' := by
  cases h with
  | keep => exact ⟨items, rfl, .refl items⟩
  | array h => exact ⟨_, rfl, h⟩

theorem Abridges.exists_object {members : List (String × Json)} {w : Json}
    (h : Abridges defaults (.object members) w) :
    ∃ members', w = .object members' ∧ AbridgesMembers defaults members members' := by
  cases h with
  | keep => exact ⟨members, rfl, .refl members⟩
  | object h => exact ⟨_, rfl, h⟩

theorem AbridgesMembers.exists_single {members' : List (String × Json)} {key : String} {v : Json}
    (h : AbridgesMembers defaults [(key, v)] members') (hrequired : (key, v) ∉ defaults) :
    ∃ w, members' = [(key, w)] ∧ Abridges defaults v w := by
  cases h with
  | keep hv h =>
      cases h
      exact ⟨_, rfl, hv⟩
  | drop hm h => exact absurd hm hrequired

/-- The name of a variant is still there, and its data is abridged. -/
theorem Abridges.exists_variant {name : String} {data w : Json}
    (h : Abridges defaults (.object [(name, data)]) w) (hname : (name, data) ∉ defaults) :
    ∃ data', w = .object [(name, data')] ∧ Abridges defaults data data' := by
  obtain ⟨members', rfl, hmembers⟩ := h.exists_object
  obtain ⟨data', rfl, hdata⟩ := hmembers.exists_single hname
  exact ⟨data', rfl, hdata⟩

/-- The items of an abridged array are decoded one by one. -/
theorem AbridgesItems.mapM_eq {α : Type} {encode : α → Json} {decode : Json → Option α}
    {l : List α} {items' : List Json} (h : AbridgesItems defaults (l.map encode) items')
    (hdecode : ∀ a ∈ l, ∀ w ∈ items', Abridges defaults (encode a) w → decode w = some a) :
    items'.mapM decode = some l := by
  induction l generalizing items' with
  | nil =>
      cases h
      rfl
  | cons a l ih =>
      cases h with
      | @cons _ w _ rest hw h =>
          have hfirst := hdecode a (by simp) w (by simp) hw
          have hrest := ih h fun b hb v hv =>
            hdecode b (List.mem_cons_of_mem a hb) v (List.mem_cons_of_mem w hv)
          rw [List.mapM_cons, hfirst, hrest]
          rfl

/-! ## Heights -/

theorem height_le_heightItems {items : List Json} {v : Json} (h : v ∈ items) :
    v.height ≤ heightItems items := by
  induction items with
  | nil => simp at h
  | cons w items ih =>
      rw [heightItems]
      rcases List.mem_cons.1 h with rfl | htail
      · exact Nat.le_max_left _ _
      · exact Nat.le_trans (ih htail) (Nat.le_max_right _ _)

theorem height_le_of_lookup {members : List (String × Json)} {key : String} {v : Json}
    (h : members.lookup key = some v) : v.height ≤ heightMembers members := by
  induction members with
  | nil => simp at h
  | cons m members ih =>
      obtain ⟨other, w⟩ := m
      rw [List.lookup_cons] at h
      rw [heightMembers]
      split at h
      · cases h
        exact Nat.le_max_left _ _
      · exact Nat.le_trans (ih h) (Nat.le_max_right _ _)

/-- An abridged array is decoded to what its items are decoded to. -/
theorem Abridges.exists_items {α : Type} {encode : α → Json} {decode : Json → Option α}
    {l : List α} {w : Json} (h : Abridges defaults (.array (l.map encode)) w)
    (hdecode : ∀ a ∈ l, ∀ v, Abridges defaults (encode a) v → v.height < w.height →
      decode v = some a) :
    ∃ items, w.items? = some items ∧ items.mapM decode = some l := by
  obtain ⟨items, rfl, hitems⟩ := h.exists_array
  refine ⟨items, rfl, hitems.mapM_eq fun a ha v hv habridges => ?_⟩
  exact hdecode a ha v habridges (Nat.lt_succ_of_le (height_le_heightItems hv))

/-! ## Fields of abridged records -/

theorem AbridgesMembers.keys_sublist {members members' : List (String × Json)}
    (h : AbridgesMembers defaults members members') :
    (members'.map Prod.fst).Sublist (members.map Prod.fst) := by
  induction members generalizing members' with
  | nil =>
      cases h
      exact .slnil
  | cons m members ih =>
      cases h with
      | keep hv h => exact (ih h).cons_cons _
      | drop hm h => exact (ih h).cons _

/-- A field of an abridged record is abridged itself, or it was left out. -/
theorem AbridgesMembers.lookup_cases {members members' : List (String × Json)} {key : String}
    {v : Json} (h : AbridgesMembers defaults members members')
    (hnodup : (members.map Prod.fst).Nodup) (hmem : (key, v) ∈ members) :
    (∃ w, members'.lookup key = some w ∧ Abridges defaults v w) ∨
      (members'.lookup key = none ∧ (key, v) ∈ defaults) := by
  induction members generalizing members' with
  | nil => simp at hmem
  | cons m members ih =>
      rw [List.map_cons, List.nodup_cons] at hnodup
      cases h with
      | @keep other u u' _ rest hv h =>
          rcases List.mem_cons.1 hmem with heq | htail
          · obtain ⟨rfl, rfl⟩ := Prod.mk.inj heq
            exact .inl ⟨u', by simp, hv⟩
          · have hne : (key == other) = false :=
              beq_eq_false_iff_ne.2 fun heq => hnodup.1 (List.mem_map.2 ⟨_, htail, heq⟩)
            rw [List.lookup_cons, hne]
            exact ih h hnodup.2 htail
      | drop hm h =>
          rcases List.mem_cons.1 hmem with rfl | htail
          · refine .inr ⟨?_, hm⟩
            rw [List.lookup_eq_none_iff]
            intro other hother
            have hne : key ≠ other.1 := fun heq =>
              hnodup.1 (h.keys_sublist.subset (List.mem_map.2 ⟨other, hother, heq.symm⟩))
            simpa using hne
          · exact ih h hnodup.2 htail

/-- The tree `w` is an abridged record, of which the fields `fields` are left. -/
structure AbridgedRecord (defaults members : List (String × Json)) (w : Json)
    (fields : List (String × Json)) : Prop where
  nodup : (members.map Prod.fst).Nodup
  abridges : AbridgesMembers defaults members fields
  eq_object : w = .object fields

theorem Abridges.exists_record {members : List (String × Json)} {w : Json}
    (h : Abridges defaults (.object members) w) (hnodup : (members.map Prod.fst).Nodup) :
    ∃ fields, AbridgedRecord defaults members w fields := by
  obtain ⟨fields, rfl, hfields⟩ := h.exists_object
  exact ⟨fields, hnodup, hfields, rfl⟩

namespace AbridgedRecord

variable {members fields : List (String × Json)} {w v : Json}

/-- An abridged record has no fields but its own, and none twice. -/
theorem record?_eq (h : AbridgedRecord defaults members w fields) :
    w.record? (members.map Prod.fst) = some fields := by
  have hkeys := h.abridges.keys_sublist
  have hknown : fields.filter (fun m => (members.map Prod.fst).contains m.1) = fields := by
    rw [List.filter_eq_self]
    intro m hm
    rw [List.contains_iff_mem]
    exact hkeys.subset (List.mem_map_of_mem hm)
  simp only [h.eq_object, record?, hknown]
  rw [if_pos (hkeys.nodup h.nodup)]

theorem lookup_cases (h : AbridgedRecord defaults members w fields) {key : String}
    (hkey : members.lookup key = some v) :
    (∃ w', fields.lookup key = some w' ∧ Abridges defaults v w') ∨
      (fields.lookup key = none ∧ (key, v) ∈ defaults) := by
  obtain ⟨left, right, rfl, -⟩ := List.lookup_eq_some_iff.1 hkey
  exact h.abridges.lookup_cases h.nodup (by simp)

/-- A field that holds no default is still there. -/
theorem required (h : AbridgedRecord defaults members w fields) (key : String)
    (hkey : members.lookup key = some v) (hrequired : (key, v) ∉ defaults) :
    ∃ w', fields.lookup key = some w' ∧ Abridges defaults v w' ∧ w'.height < w.height := by
  rcases h.lookup_cases hkey with ⟨w', hfound, hw'⟩ | ⟨-, hdefault⟩
  · refine ⟨w', hfound, hw', ?_⟩
    rw [h.eq_object, height]
    exact Nat.lt_succ_of_le (height_le_of_lookup hfound)
  · exact absurd hdefault hrequired

/-- An optional field is found, or it is absent in the whole record, too. -/
theorem optional {α : Type} {encode : α → Json} {decode : Json → Option α} {o : Option α}
    (h : AbridgedRecord defaults members w fields) (key : String)
    (hkey : members.lookup key = some (ofOption encode o))
    (hrequired : ∀ a, (key, encode a) ∉ defaults) (hnull : decode .null = none)
    (hdecode : ∀ a, o = some a → ∀ w', Abridges defaults (encode a) w' → w'.height < w.height →
      decode w' = some a) :
    optional? decode (fields.lookup key) = some o := by
  cases o with
  | none =>
      rcases h.lookup_cases hkey with ⟨w', hfound, hw'⟩ | ⟨hmissing, -⟩
      · cases hw'
        rw [hfound]
        rfl
      · rw [hmissing]
        rfl
  | some a =>
      obtain ⟨w', hfound, hw', hheight⟩ := h.required key hkey (hrequired a)
      have hdecoded := hdecode a rfl w' hw' hheight
      rw [hfound, optional?, hdecoded]
      · rfl
      -- what is decoded is not `null`
      · rintro rfl
        cases hnull.symm.trans hdecoded

/-- A field with a default is found, or the default is what it holds. -/
theorem orDefault {α : Type} {decode : Json → Option α} {default a : α}
    (h : AbridgedRecord defaults members w fields) (key : String)
    (hkey : members.lookup key = some v) (hdefault : (key, v) ∈ defaults → default = a)
    (hdecode : ∀ w', Abridges defaults v w' → decode w' = some a) :
    orDefault? decode default (fields.lookup key) = some a := by
  rcases h.lookup_cases hkey with ⟨w', hfound, hw'⟩ | ⟨hmissing, hheld⟩
  · rw [hfound]
    exact hdecode w' hw'
  · rw [hmissing, ← hdefault hheld]
    rfl

end AbridgedRecord

/-! ## Texts of abridged trees -/

theorem AbridgesItems.exists_mem {items items' : List Json} {w : Json}
    (h : AbridgesItems defaults items items') (hw : w ∈ items') :
    ∃ v ∈ items, Abridges defaults v w := by
  induction items generalizing items' with
  | nil =>
      cases h
      simp at hw
  | cons v items ih =>
      cases h with
      | cons hv h =>
          rcases List.mem_cons.1 hw with rfl | htail
          · exact ⟨v, by simp, hv⟩
          · obtain ⟨u, hu, habridges⟩ := ih h htail
            exact ⟨u, List.mem_cons_of_mem v hu, habridges⟩

theorem AbridgesMembers.exists_mem {members members' : List (String × Json)} {m' : String × Json}
    (h : AbridgesMembers defaults members members') (hm' : m' ∈ members') :
    ∃ m ∈ members, Abridges defaults m.2 m'.2 := by
  induction members generalizing members' with
  | nil =>
      cases h
      simp at hm'
  | cons m members ih =>
      cases h with
      | keep hv h =>
          rcases List.mem_cons.1 hm' with rfl | htail
          · exact ⟨_, List.mem_cons_self, hv⟩
          · obtain ⟨u, hu, habridges⟩ := ih h htail
            exact ⟨u, List.mem_cons_of_mem _ hu, habridges⟩
      | drop hm h =>
          obtain ⟨u, hu, habridges⟩ := ih h hm'
          exact ⟨u, List.mem_cons_of_mem m hu, habridges⟩

/-- Every part of an abridged tree comes from a part of the whole one. -/
theorem Abridges.readable {v w : Json} (h : Abridges defaults v w) (hv : v.Readable) :
    w.Readable := by
  induction hv generalizing w with
  | @array items _ ih =>
      obtain ⟨items', rfl, hitems⟩ := h.exists_array
      refine .array fun w hw => ?_
      obtain ⟨v, hv, habridges⟩ := hitems.exists_mem hw
      exact ih v hv habridges
  | @object members _ ih =>
      obtain ⟨members', rfl, hmembers⟩ := h.exists_object
      refine .object fun m' hm' => ?_
      obtain ⟨m, hm, habridges⟩ := hmembers.exists_mem hm'
      exact ih m hm habridges
  | null =>
      cases h
      exact .null
  | bool b =>
      cases h
      exact .bool b
  | int hreads =>
      cases h
      exact .int hreads
  | float hreads =>
      cases h
      exact .float hreads
  | string s =>
      cases h
      exact .string s

end ThreeAddress.Json
