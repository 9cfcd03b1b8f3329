import Geocast.Packet.Wire

/-!
# Reading records

A record is read when each of its known members is fit, all others are admitted, no name is repeated
and no required field is missing. A tag that stands first is taken off and leaves the rest.

* `Fits`: a member that a record takes.
* `membersOf_of_fits`: such members make a record.
* `splitTag_of_passable`: the tag of a tagged value, and the members that are left.
-/
namespace Geocast.Wire

/-! ## Steps of a reader -/

-- Not by `rfl`: two steps in a row would be unfolded down to the bounds of their numbers.
@[simp] theorem ok_bind {α β : Type} (a : α) (f : α → Except WireError β) :
    (Except.ok a >>= f) = f a := by
  simp only [bind, Except.bind]

@[simp] theorem pure_eq_ok {α : Type} (a : α) : (pure a : Except WireError α) = .ok a := rfl

@[simp] theorem map_ok {α β : Type} (a : α) (f : α → β) :
    (Except.ok a : Except WireError α).map f = .ok (f a) := rfl

variable {α : Type} {name : String} {decode : Decoder α} {v : Json}

@[simp] theorem get_cons_self (ms : List (String × Json)) :
    get ((name, v) :: ms) name decode = decode v := by
  simp [get, Json.get?]

@[simp] theorem get_cons_of_ne {key : String} (h : key ≠ name) (ms : List (String × Json)) :
    get ((key, v) :: ms) name decode = get ms name decode := by
  simp [get, Json.get?, h]

/-! ## Fields -/

@[simp] theorem field_name : (field name decode).name = name := rfl

@[simp] theorem field_required : (field name decode).required = true := rfl

@[simp] theorem optionalField_name : (optionalField name decode).name = name := rfl

@[simp] theorem optionalField_required : (optionalField name decode).required = false := rfl

@[simp] theorem field_check_eq_ok :
    (field name decode).check v = .ok () ↔ ∃ a, decode v = .ok a := by
  change (decode v).map (fun _ => ()) = .ok () ↔ _
  cases decode v <;> simp [Except.map]

@[simp] theorem optionalField_check_eq_ok :
    (optionalField name decode).check v = .ok () ↔ ∃ a, decode v = .ok a :=
  (field_check_eq_ok : (field name decode).check v = .ok () ↔ _)

/-! ## Members -/

mutual
theorem intact_of_sound (v : Json) (limit : Nat) (h : v.sound limit = true) : v.intact = true := by
  cases v with
  | arr items =>
    simp only [Json.sound, Bool.and_eq_true] at h
    exact intactItems_of_sound items _ h.2
  | obj members =>
    simp only [Json.sound, Bool.and_eq_true] at h
    exact intactMembers_of_sound members _ h.2
  | flawed => cases h
  | nameless v => cases h
  | broken => cases h
  | _ => rfl
termination_by structural v
theorem intactItems_of_sound (items : List Json) (limit : Nat)
    (h : Json.soundItems limit items = true) : Json.intactItems items = true := by
  cases items with
  | nil => rfl
  | cons v later =>
    simp only [Json.soundItems, Bool.and_eq_true] at h
    simp [Json.intactItems, intact_of_sound v limit h.1, intactItems_of_sound later limit h.2]
termination_by structural items
theorem intactMembers_of_sound (members : List (String × Json)) (limit : Nat)
    (h : Json.soundMembers limit members = true) : Json.intactMembers members = true := by
  cases members with
  | nil => rfl
  | cons m later =>
    obtain ⟨name, v⟩ := m
    simp only [Json.soundMembers, Bool.and_eq_true] at h
    simp [Json.intactMembers, intact_of_sound v limit h.1, intactMembers_of_sound later limit h.2]
termination_by structural members
end

theorem passable_of_sound {v : Json} {limit : Nat} (h : v.sound limit = true) :
    v.passable = true := by
  cases v with
  | nameless v => cases h
  | _ => exact intact_of_sound _ limit h

/-- A member that a record takes: the value of a known field is fit for it, that of any other
member is admitted. -/
def Fits (fields : List Field) (admitted : Json → Bool) (m : String × Json) : Prop :=
  match fields.find? (·.name == m.1) with
  | none => admitted m.2 = true
  | some f => f.check m.2 = .ok ()

variable {fields : List Field} {admitted : Json → Bool} {members : List (String × Json)}

theorem checkMembers_of_fits (seen : List String) (hfits : ∀ m ∈ members, Fits fields admitted m)
    (hnodup : (members.map Prod.fst).Nodup) (hseen : ∀ m ∈ members, m.1 ∉ seen) :
    checkMembers fields admitted seen members = .ok () := by
  induction members generalizing seen with
  | nil => rfl
  | cons m members ih =>
    obtain ⟨name, v⟩ := m
    rw [List.map_cons, List.nodup_cons] at hnodup
    have hfit : Fits fields admitted (name, v) := hfits _ List.mem_cons_self
    have hlater := fun seen => ih seen (fun m hm => hfits m (List.mem_cons_of_mem _ hm)) hnodup.2
    rw [Fits] at hfit
    rw [checkMembers]
    split
    next hunknown =>
      simp only [hunknown] at hfit
      rw [if_pos hfit]
      exact hlater seen fun m hm => hseen m (List.mem_cons_of_mem _ hm)
    next f hknown =>
      simp only [hknown] at hfit
      have hnew : seen.contains name = false := by simpa using hseen (name, v) List.mem_cons_self
      rw [hnew, hfit]
      refine hlater (name :: seen) fun m hm => ?_
      have hne : m.1 ≠ name := fun heq => hnodup.1 (List.mem_map.2 ⟨m, hm, heq⟩)
      simpa [hne] using hseen m (List.mem_cons_of_mem _ hm)

theorem isSome_get? (h : name ∈ members.map Prod.fst) : (Json.get? name members).isSome = true := by
  induction members with
  | nil => cases h
  | cons m members ih =>
    obtain ⟨key, v⟩ := m
    rw [Json.get?]
    split
    next => rfl
    next hne =>
      refine ih (List.mem_of_ne_of_mem (fun heq => hne ?_) h)
      simp [heq]

/-- Members that fit, each once, with no required field missing, make a record. -/
theorem membersOf_of_fits (hfits : ∀ m ∈ members, Fits fields admitted m)
    (hnodup : (members.map Prod.fst).Nodup)
    (hrequired : ∀ f ∈ fields, f.required = true → f.name ∈ members.map Prod.fst) :
    membersOf fields admitted members = .ok members := by
  have hcheck := checkMembers_of_fits [] hfits hnodup fun _ _ => List.not_mem_nil
  have hall : (fields.all fun f => !f.required || (Json.get? f.name members).isSome) = true := by
    rw [List.all_eq_true]
    intro f hf
    cases hneeded : f.required with
    | false => rfl
    | true => simpa using isSome_get? (hrequired f hf hneeded)
  simp [membersOf, hcheck, hall]

theorem recordOf_of_fits (hfits : ∀ m ∈ members, Fits fields Json.passable m)
    (hnodup : (members.map Prod.fst).Nodup)
    (hrequired : ∀ f ∈ fields, f.required = true → f.name ∈ members.map Prod.fst) :
    recordOf fields (.obj members) = .ok members :=
  membersOf_of_fits hfits hnodup hrequired

theorem filter_name_ne (h : name ∉ members.map Prod.fst) :
    members.filter (fun m => m.1 != name) = members := by
  rw [List.filter_eq_self]
  intro m hm
  have hne : m.1 ≠ name := fun heq => h (List.mem_map.2 ⟨m, hm, heq⟩)
  simpa using hne

/-! ## Tags -/

/-- The tag that stands first is taken off, and the other members are left. -/
theorem splitTag_of_passable {place : Place} {tag kind : String} {kinds : List String}
    (hkind : kind ∈ kinds) (hpassable : ∀ m ∈ members, m.2.passable = true)
    (hnodup : (tag :: members.map Prod.fst).Nodup) :
    splitTag place tag kinds (.obj ((tag, .str kind) :: members)) = .ok (kind, .obj members) := by
  have htag : decodeTag place kinds (.str kind) = .ok kind := by simp [decodeTag, hkind]
  have hcheck : checkMembers [field tag (decodeTag place kinds)] Json.passable []
      ((tag, .str kind) :: members) = .ok () := by
    refine checkMembers_of_fits [] ?_ hnodup fun _ _ => List.not_mem_nil
    intro m hm
    rcases List.mem_cons.1 hm with rfl | hm
    · simp [Fits, htag]
    · have hne : tag ≠ m.1 := fun heq =>
        (List.nodup_cons.1 hnodup).1 (List.mem_map.2 ⟨m, hm, heq.symm⟩)
      simp [Fits, hne, hpassable m hm]
  simp [splitTag, hcheck, htag, filter_name_ne (List.nodup_cons.1 hnodup).1]

end Geocast.Wire
