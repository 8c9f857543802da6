import TreeLint.Proofs.Failing
import TreeLint.Proofs.Options

/-! What the check of an option comes to. It passes just the options that the schema describes, it
breaks off just when a part of a wrong type cannot be shown, and else it tells an error. -/

namespace TreeLint

namespace Value

/-- A part that keeps a value from being a list of texts, some steps inside of it. -/
inductive Spoils : Value → Nat → Value → Prop
  | whole {v : Value} : (∀ items, v ≠ .list items) → Spoils v 0 v
  | item {items : List Value} {item : Value} : item ∈ items → (∀ text, item ≠ .str text) →
      Spoils item 1 (.list items)

theorem IsTexts.not_spoils {v part : Value} {steps : Nat} (texts : v.IsTexts) :
    ¬ part.Spoils steps v := by
  obtain ⟨items, rfl, each⟩ := texts
  intro spoils
  cases spoils with
  | whole other => exact other items rfl
  | item member other =>
    obtain ⟨text, same⟩ := each part member
    exact other text same

theorem map_filterMap_string {items : List Value} (texts : items.all (·.string?.isSome) = true) :
    (items.filterMap Value.string?).map .str = items := by
  induction items with
  | nil => rfl
  | cons item rest ih =>
    rw [List.all_cons, Bool.and_eq_true] at texts
    cases item with
    | str text => simp [Value.string?, ih texts.2]
    | _ => simp [Value.string?] at texts

theorem isTexts_list_iff {items : List Value} :
    (Value.list items).IsTexts ↔ items.all (·.string?.isSome) = true := by
  simp only [IsTexts, Value.list.injEq, exists_eq_left', List.all_eq_true]
  refine forall₂_congr fun item _ => ?_
  cases item <;> simp [Value.string?]

theorem IsTexts.eq_list {v : Value} (texts : v.IsTexts) :
    ∃ held : List String, v = .list (held.map .str) := by
  obtain ⟨items, rfl, -⟩ := id texts
  exact ⟨_, by rw [map_filterMap_string (isTexts_list_iff.mp texts)]⟩

end Value

namespace OptionsSchema

/-- A part of an option cannot be shown, so many steps inside of the option. -/
def Hidden [Host] (steps : Nat) (part : Value) : Prop := ¬ part.Showable (Host.optionLevels steps)

variable [Host]

/-- A check shows the parts that are wrong: it stops if one of them cannot be shown, and it finds
nothing if there are none. -/
structure Tells {α : Type} (wrong : Nat → Value → Prop) (check : Read (List α)) : Prop where
  stopped : ∀ fault, check = .error fault → ∃ steps part, wrong steps part ∧ Hidden steps part
  showable : ∀ errors, check = .ok errors → ∀ steps part, wrong steps part → ¬ Hidden steps part
  clean : (∀ steps part, ¬ wrong steps part) → check = .ok []

variable {α : Type} {wrong others : Nat → Value → Prop}

theorem Tells.congr {check : Read (List α)} (tells : Tells wrong check)
    (same : ∀ steps part, others steps part ↔ wrong steps part) : Tells others check := by
  obtain rfl : others = wrong := funext₂ fun steps part => propext (same steps part)
  exact tells

theorem tells_none : Tells (fun _ _ => False) (.ok [] : Read (List α)) where
  stopped := nofun
  showable := fun _ _ _ _ => False.elim
  clean := fun _ => rfl

theorem tells_one (steps : Nat) (v : Value) (error : String → α) :
    Tells (fun depth part => depth = steps ∧ part = v)
      (do return [error (← v.shown (Host.optionLevels steps))]) where
  stopped := by
    intro fault stopped
    rcases bind_error_iff.mp stopped with hidden | ⟨written, -, made⟩
    · exact ⟨steps, v, ⟨rfl, rfl⟩, Value.not_showable_iff.mpr ⟨fault, hidden⟩⟩
    · cases made
  showable := by
    rintro errors told depth part ⟨rfl, rfl⟩
    obtain ⟨written, shown, -⟩ := bind_ok_iff.mp told
    exact not_not_intro ⟨written, shown⟩
  clean := fun none => absurd ⟨rfl, rfl⟩ (none steps v)

/-- A check in two steps shows what is wrong in either of them. -/
theorem Tells.append {first second : Read (List α)} (tells : Tells wrong first)
    (more : Tells others second) :
    Tells (fun steps part => wrong steps part ∨ others steps part)
      (do return (← first) ++ (← second)) where
  stopped := by
    intro fault stopped
    rcases bind_error_iff.mp stopped with early | ⟨errors, -, later⟩
    · obtain ⟨steps, part, here, hidden⟩ := tells.stopped fault early
      exact ⟨steps, part, .inl here, hidden⟩
    · rcases bind_error_iff.mp later with late | ⟨rest, -, made⟩
      · obtain ⟨steps, part, there, hidden⟩ := more.stopped fault late
        exact ⟨steps, part, .inr there, hidden⟩
      · cases made
  showable := by
    intro errors told steps part either
    obtain ⟨found, early, told⟩ := bind_ok_iff.mp told
    obtain ⟨rest, late, -⟩ := bind_ok_iff.mp told
    rcases either with here | there
    · exact tells.showable found early steps part here
    · exact more.showable rest late steps part there
  clean := by
    intro none
    rw [tells.clean fun steps part here => none steps part (.inl here),
      more.clean fun steps part there => none steps part (.inr there)]
    rfl

theorem Tells.cons {rest : Read (List α)} (tells : Tells wrong rest) (steps : Nat) (v : Value)
    (error : String → α) :
    Tells (fun depth part => (depth = steps ∧ part = v) ∨ wrong depth part)
      (do let written ← v.shown (Host.optionLevels steps); return error written :: (← rest)) := by
  -- once it is known how both steps end, the error in front and the list of one error agree
  have both := (tells_one steps v error).append tells
  generalize v.shown (Host.optionLevels steps) = told at both ⊢
  cases told <;> cases rest <;> exact both

theorem itemErrors_tells (key : String) (i : Nat) (items : List Value) :
    Tells (fun steps part => steps = 2 ∧ part ∈ items ∧ ∀ text, part ≠ .str text)
      (itemErrors key i items) := by
  fun_induction itemErrors key i items with
  | case1 i =>
    apply tells_none.congr
    simp
  | case2 i text rest ih =>
    apply ih.congr
    intro steps part
    constructor
    · rintro ⟨inside, member, other⟩
      exact ⟨inside, (List.mem_cons.mp member).resolve_left (other text), other⟩
    · rintro ⟨inside, member, other⟩
      exact ⟨inside, .tail _ member, other⟩
  | case3 i item rest other ih =>
    apply (ih.cons 2 item fun written =>
      (OptionPlace.item key i, OptionError.wrongType written "string")).congr
    intro steps part
    constructor
    · rintro ⟨inside, member, texts⟩
      exact (List.mem_cons.mp member).imp (⟨inside, ·⟩) (⟨inside, ·, texts⟩)
    · rintro (⟨inside, rfl⟩ | ⟨inside, later, texts⟩)
      · exact ⟨inside, List.mem_cons_self, other⟩
      · exact ⟨inside, .tail _ later, texts⟩

theorem propertyErrors_tells (key : String) (v : Value) :
    Tells (fun steps part => ∃ inside, steps = inside + 1 ∧ part.Spoils inside v)
      (propertyErrors key v) := by
  unfold propertyErrors
  split
  · rename_i items
    apply (itemErrors_tells key 0 items).congr
    intro steps part
    constructor
    · rintro ⟨inside, rfl, spoils⟩
      cases spoils with
      | whole other => exact absurd rfl (other items)
      | item member other => exact ⟨rfl, member, other⟩
    · rintro ⟨rfl, member, other⟩
      exact ⟨1, rfl, .item member other⟩
  · rename_i other
    apply (tells_one 1 v fun written =>
      (OptionPlace.property key, OptionError.wrongType written "array")).congr
    intro steps part
    constructor
    · rintro ⟨inside, rfl, spoils⟩
      cases spoils with
      | whole => exact ⟨rfl, rfl⟩
      | @item items => exact absurd rfl (other items)
    · rintro ⟨rfl, rfl⟩
      exact ⟨0, rfl, .whole other⟩

/-- A part of an object, some steps inside of it, that keeps a property of it from being a list of
texts. -/
def SpoilsNamed (members : Members) (properties : List (String × Members)) (steps : Nat)
    (part : Value) : Prop :=
  ∃ property ∈ properties, ∃ v, members.lookup property.1 = some v ∧
    ∃ inside, steps = inside + 1 ∧ part.Spoils inside v

theorem namedErrors_tells (members : Members) (properties : List (String × Members)) :
    Tells (SpoilsNamed members properties) (namedErrors members properties) := by
  induction properties with
  | nil =>
    apply tells_none.congr
    simp [SpoilsNamed]
  | cons property rest ih =>
    have split (steps : Nat) (part : Value) :
        SpoilsNamed members (property :: rest) steps part ↔
          (∃ v, members.lookup property.1 = some v ∧
            ∃ inside, steps = inside + 1 ∧ part.Spoils inside v) ∨
          SpoilsNamed members rest steps part := by
      simp [SpoilsNamed]
    unfold namedErrors
    cases held : members.lookup property.1 with
    | none =>
      apply (tells_none.append ih).congr
      intro steps part
      rw [split, held]
      simp
    | some v =>
      apply ((propertyErrors_tells property.1 v).append ih).congr
      intro steps part
      rw [split, held]
      simp

/-- A part of an option that is of the wrong type, some steps inside of it: the option itself if it
is no object, or what keeps a property from being a list of texts. -/
inductive Misfit (schema : OptionsSchema) (option : Value) : Nat → Value → Prop
  | whole : (∀ members, option ≠ .object members) → Misfit schema option 0 option
  | property {members : Members} {steps : Nat} {part : Value} : option = .object members →
      SpoilsNamed members schema.properties steps part → Misfit schema option steps part

omit [Host] in
theorem Admits.not_misfit {schema : OptionsSchema} {option part : Value} {steps : Nat}
    (admits : schema.Admits option) : ¬ schema.Misfit option steps part := by
  obtain ⟨members, rfl, -⟩ := admits.object
  intro misfit
  cases misfit with
  | whole other => exact other members rfl
  | property same spoils =>
    cases same
    obtain ⟨property, known, v, held, _, -, spoils⟩ := spoils
    exact (admits.texts property known v held).not_spoils spoils

omit [Host] in
theorem hasProperty_iff {schema : OptionsSchema} {key : String} :
    schema.hasProperty key = true ↔ key ∈ schema.properties.map (·.1) := by
  simp [hasProperty]

omit [Host] in
/-- Whatever a schema admits holds lists of texts, whichever key is asked for. -/
theorem Admits.isTexts {schema : OptionsSchema} {members : Members}
    (admits : schema.Admits (.object members)) {key : String} {v : Value}
    (held : members.lookup key = some v) : v.IsTexts := by
  obtain ⟨given, same, known⟩ := admits.object
  cases same
  have named := known (key, v) (Table.mem_of_lookup held)
  obtain ⟨property, among, rfl⟩ := List.mem_map.mp (hasProperty_iff.mp named)
  exact admits.texts property among v held

theorem unexpectedKeys_eq_nil {schema : OptionsSchema} {members : Members}
    (known : ∀ member ∈ members, schema.hasProperty member.1 = true) :
    schema.unexpectedKeys members = [] := by
  unfold unexpectedKeys
  rw [List.filter_eq_nil_iff.mpr, List.mergeSort_nil]
  intro key listed
  obtain ⟨member, among, rfl⟩ := List.mem_map.mp listed
  simp [known member among]

theorem errors_error {schema : OptionsSchema} {option : Value} {fault : Fault}
    (stopped : schema.errors option = .error fault) :
    ∃ steps part, schema.Misfit option steps part ∧ Hidden steps part := by
  unfold errors at stopped
  split at stopped
  · rename_i members
    rcases bind_error_iff.mp stopped with hidden | ⟨errors, -, made⟩
    · obtain ⟨steps, part, spoils, hidden⟩ :=
        (namedErrors_tells members schema.properties).stopped _ hidden
      exact ⟨steps, part, .property rfl spoils, hidden⟩
    · cases made
  · rename_i other
    rcases bind_error_iff.mp stopped with hidden | ⟨written, -, made⟩
    · exact ⟨0, option, .whole other, Value.not_showable_iff.mpr ⟨fault, hidden⟩⟩
    · cases made

theorem errors_showable {schema : OptionsSchema} {option : Value}
    {errors : List (OptionPlace × OptionError)} (told : schema.errors option = .ok errors)
    {steps : Nat} {part : Value} (misfit : schema.Misfit option steps part) :
    ¬ Hidden steps part := by
  cases misfit with
  | whole other =>
    unfold OptionsSchema.errors at told
    split at told
    · rename_i members
      exact absurd rfl (other members)
    · obtain ⟨written, shown, -⟩ := bind_ok_iff.mp told
      exact not_not_intro ⟨written, shown⟩
  | property same spoils =>
    subst same
    obtain ⟨found, named, -⟩ := bind_ok_iff.mp told
    exact (namedErrors_tells _ schema.properties).showable found named _ part spoils

/-- The check of an option breaks off just when a part of it that is of the wrong type cannot be
shown. -/
theorem firstError?_error {schema : OptionsSchema} {option : Value} {fault : Fault}
    (stopped : schema.firstError? option = .error fault) :
    ∃ steps part, schema.Misfit option steps part ∧ Hidden steps part := by
  rcases bind_error_iff.mp stopped with early | ⟨errors, -, made⟩
  · exact errors_error early
  · cases made

theorem showable_of_firstError? {schema : OptionsSchema} {option : Value}
    {first : Option (OptionPlace × OptionError)} (told : schema.firstError? option = .ok first)
    {steps : Nat} {part : Value} (misfit : schema.Misfit option steps part) :
    ¬ Hidden steps part := by
  obtain ⟨errors, found, -⟩ := bind_ok_iff.mp told
  exact errors_showable found misfit

/-- The check lets through just what the schema describes. -/
theorem firstError?_none_iff {schema : OptionsSchema} {option : Value} :
    schema.firstError? option = .ok none ↔ schema.Admits option := by
  constructor
  · exact admits_of_firstError?
  · intro admits
    obtain ⟨members, rfl, known⟩ := admits.object
    have named : namedErrors members schema.properties = .ok [] := by
      apply (namedErrors_tells members schema.properties).clean
      intro steps part spoils
      exact admits.not_misfit (.property rfl spoils)
    have none : schema.errors (.object members) = .ok [] := by
      unfold errors
      simp [named, unexpectedKeys_eq_nil known, Bind.bind, Except.bind, Pure.pure, Except.pure]
    simp [firstError?, none, Bind.bind, Except.bind, Pure.pure, Except.pure]

end OptionsSchema

end TreeLint
