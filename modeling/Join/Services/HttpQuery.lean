import Join.Services.HttpRoundTrip

/-!
# The components of a query

A query is made of components with an ampersand between them, and each component that has
an equals sign sets a parameter. `HttpRequest::store` looks for the next equals sign first
and for the ampersand only behind it: a component without an equals sign becomes a part of
the name that the next one sets.

`settings` are the names and values that `store` takes out of a query, and
`componentSettings` those of its components.
-/

set_option autoImplicit false

namespace Join.HttpRequest

open Library

/-- The names and values that `store` takes out of a query, before it decodes them. -/
def settings (query : List UInt8) : List (List UInt8 × List UInt8) :=
  match _found : cut [equalsSign] query with
  | none => []
  | some (name, rest) =>
      match _next : cut [ampersand] rest with
      | none => [(name, rest)]
      | some (value, rest) => (name, value) :: settings rest
termination_by query.length
decreasing_by
  exact (length_cut_lt (List.cons_ne_nil _ _) _next).trans
    (length_cut_lt (List.cons_ne_nil _ _) _found)

/-- Set a parameter to a value, both decoded. -/
def setParameter (unset : ℕ → UInt32) (parameters : ParameterMap)
    (setting : List UInt8 × List UInt8) : ParameterMap :=
  parameters.assign (decodeUrl unset setting.1) (decodeUrl unset setting.2)

/-- The names and values of the components that have an equals sign: what stands in front
of the first one and what stands behind it. -/
def componentSettings (query : List UInt8) : List (List UInt8 × List UInt8) :=
  (query.splitOn ampersand).filterMap (cut [equalsSign])

/-- `store` sets one parameter after another. -/
theorem store_eq_settings (unset : ℕ → UInt32) (parameters : ParameterMap)
    (query : List UInt8) :
    store unset parameters query = (settings query).foldl (setParameter unset) parameters := by
  fun_induction settings query generalizing parameters with
  | case1 query found =>
    rw [store.eq_def]
    split
    · rfl
    · rename_i other
      rw [found] at other
      cases other
  | case2 query name rest found next =>
    rw [store.eq_def, found]
    simp only
    rw [next]
    rfl
  | case3 query name rest found value after next ih =>
    rw [store.eq_def, found]
    simp only
    rw [next]
    exact ih _

/-! ## One component after another -/

/-- A query is a component, or one with others behind it. -/
theorem component_rule {motive : List UInt8 → Prop}
    (last : ∀ component, ampersand ∉ component → motive component)
    (more : ∀ component query, ampersand ∉ component → motive query →
      motive (component ++ ampersand :: query)) (query : List UInt8) : motive query := by
  induction size : query.length using Nat.strong_induction_on generalizing query with
  | _ count ih =>
    by_cases present : ampersand ∈ query
    · obtain ⟨component, others, rfl, absent⟩ := List.eq_append_cons_of_mem present
      apply more component others absent
      apply ih others.length _ others rfl
      rw [← size, List.length_append, List.length_cons]
      omega
    · exact last query present

theorem components_last {component : List UInt8} (absent : ampersand ∉ component) :
    component.splitOn ampersand = [component] := List.splitOn_eq_singleton absent

theorem components_more {component : List UInt8} (absent : ampersand ∉ component)
    (query : List UInt8) : (component ++ ampersand :: query).splitOn ampersand =
      component :: query.splitOn ampersand :=
  List.splitOn_append_cons_self_of_not_mem absent _

theorem settings_none {query : List UInt8} (absent : equalsSign ∉ query) :
    settings query = [] := by
  rw [settings.eq_def, cut_none absent]

/-- A component with an equals sign at the end. -/
theorem settings_last {name value : List UInt8} (first : equalsSign ∉ name)
    (absent : ampersand ∉ value) : settings (name ++ equalsSign :: value) = [(name, value)] := by
  rw [settings.eq_def, cut_single first]
  simp only
  rw [cut_none absent]

/-- A component with an equals sign, and what stands behind it. -/
theorem settings_more {name value : List UInt8} (first : equalsSign ∉ name)
    (absent : ampersand ∉ value) (query : List UInt8) :
    settings ((name ++ equalsSign :: value) ++ ampersand :: query) =
      (name, value) :: settings query := by
  rw [List.append_assoc, List.cons_append, settings.eq_def, cut_single first]
  simp only
  rw [cut_single absent]

/-- A component without an equals sign becomes a part of the next name. -/
theorem settings_skip {component : List UInt8} (bare : equalsSign ∉ component)
    (query : List UInt8) : settings (component ++ ampersand :: query) =
      (settings query).modifyHead fun setting =>
        (component ++ ampersand :: setting.1, setting.2) := by
  by_cases present : equalsSign ∈ query
  · obtain ⟨name, rest, rfl, first⟩ := List.eq_append_cons_of_mem present
    have later : equalsSign ∉ component ++ ampersand :: name := by
      intro member
      rcases List.mem_append.mp member with old | new
      · exact bare old
      · rcases List.mem_cons.mp new with same | new
        · exact absurd same (by decide)
        · exact first new
    have whole : component ++ ampersand :: (name ++ equalsSign :: rest) =
        (component ++ ampersand :: name) ++ equalsSign :: rest := by
      rw [List.append_assoc, List.cons_append]
    by_cases another : ampersand ∈ rest
    · obtain ⟨value, others, rfl, absent⟩ := List.eq_append_cons_of_mem another
      have spelled : ∀ front : List UInt8, front ++ equalsSign :: (value ++ ampersand :: others) =
          (front ++ equalsSign :: value) ++ ampersand :: others := by
        intro front
        rw [List.append_assoc, List.cons_append]
      rw [whole, spelled, spelled, settings_more later absent, settings_more first absent]
      rfl
    · rw [whole, settings_last later another, settings_last first another]
      rfl
  · have nowhere : equalsSign ∉ component ++ ampersand :: query := by
      intro member
      rcases List.mem_append.mp member with old | new
      · exact bare old
      · rcases List.mem_cons.mp new with same | new
        · exact absurd same (by decide)
        · exact present new
    rw [settings_none nowhere, settings_none present]
    rfl

/-- The settings of the components, one component after another. -/
theorem componentSettings_more {component : List UInt8} (absent : ampersand ∉ component)
    (query : List UInt8) : componentSettings (component ++ ampersand :: query) =
      (cut [equalsSign] component).toList ++ componentSettings query := by
  rw [componentSettings, components_more absent, List.filterMap_cons, componentSettings]
  cases cut [equalsSign] component with
  | none => rfl
  | some setting => rfl

theorem componentSettings_last {component : List UInt8} (absent : ampersand ∉ component) :
    componentSettings component = (cut [equalsSign] component).toList := by
  rw [componentSettings, components_last absent, List.filterMap_cons, List.filterMap_nil]
  cases cut [equalsSign] component with
  | none => rfl
  | some setting => rfl

/-- A query has an equals sign when one of its components has. -/
theorem equals_mem_iff (query : List UInt8) :
    equalsSign ∈ query ↔ ∃ component ∈ query.splitOn ampersand, equalsSign ∈ component := by
  induction query using component_rule with
  | last component absent => simp [components_last absent]
  | more component query absent ih =>
    have apart : equalsSign ≠ ampersand := by decide
    simp [components_more absent, ih, apart]

/-- A component with an equals sign, taken apart. -/
theorem exists_setting {component : List UInt8} (absent : ampersand ∉ component)
    (member : equalsSign ∈ component) : ∃ name value,
      component = name ++ equalsSign :: value ∧ equalsSign ∉ name ∧ ampersand ∉ value ∧
        cut [equalsSign] component = some (name, value) := by
  obtain ⟨name, value, rfl, first⟩ := List.eq_append_cons_of_mem member
  refine ⟨name, value, rfl, first, ?_, cut_single first value⟩
  intro inside
  exact absent (List.mem_append_right _ (List.mem_cons_of_mem _ inside))

/-- The first name that `store` takes out ends with the name of the first component that has
an equals sign. -/
theorem name_ends {query name value : List UInt8} {others : List (List UInt8 × List UInt8)}
    (taken : settings query = (name, value) :: others) :
    ∃ short more, componentSettings query = (short, value) :: more ∧ short <:+ name := by
  induction query using component_rule generalizing name others with
  | last component absent =>
    by_cases member : equalsSign ∈ component
    · obtain ⟨first, second, rfl, before, behind, found⟩ := exists_setting absent member
      rw [settings_last before behind] at taken
      cases taken
      refine ⟨name, [], ?_, List.suffix_refl _⟩
      rw [componentSettings_last absent, found]
      rfl
    · rw [settings_none member] at taken
      cases taken
  | more component query absent ih =>
    by_cases member : equalsSign ∈ component
    · obtain ⟨first, second, rfl, before, behind, found⟩ := exists_setting absent member
      rw [settings_more before behind] at taken
      cases taken
      refine ⟨name, componentSettings query, ?_, List.suffix_refl _⟩
      rw [componentSettings_more absent, found]
      rfl
    · rw [settings_skip member] at taken
      cases inner : settings query with
      | nil =>
        rw [inner] at taken
        cases taken
      | cons setting rest =>
        rw [inner] at taken
        cases taken
        obtain ⟨short, more, same, ends⟩ := ih inner
        refine ⟨short, more, ?_, ends.trans ?_⟩
        · rw [componentSettings_more absent, cut_none member, same]
          rfl
        · exact (List.suffix_cons _ _).trans (List.suffix_append _ _)

/-- Components without an equals sign stand behind those with one. -/
def BareLast (query : List UInt8) : Prop :=
  (query.splitOn ampersand).Pairwise fun before behind =>
    equalsSign ∈ behind → equalsSign ∈ before

/-- What `store` takes out are the settings of the components exactly when no component
without an equals sign stands in front of one that has it. -/
theorem settings_eq_iff (query : List UInt8) :
    settings query = componentSettings query ↔ BareLast query := by
  induction query using component_rule with
  | last component absent =>
    refine iff_of_true ?_ ?_
    · rw [componentSettings_last absent]
      by_cases member : equalsSign ∈ component
      · obtain ⟨name, value, rfl, before, behind, found⟩ := exists_setting absent member
        rw [settings_last before behind, found]
        rfl
      · rw [settings_none member, cut_none member]
        rfl
    · rw [BareLast, components_last absent]
      exact List.pairwise_singleton _ _
  | more component query absent ih =>
    rw [BareLast, components_more absent, List.pairwise_cons, componentSettings_more absent]
    by_cases member : equalsSign ∈ component
    · obtain ⟨name, value, rfl, before, behind, found⟩ := exists_setting absent member
      rw [settings_more before behind, found, Option.toList_some, List.singleton_append,
        List.cons.injEq, ih]
      constructor
      · rintro ⟨-, last⟩
        exact ⟨fun other _ _ => member, last⟩
      · rintro ⟨-, last⟩
        exact ⟨rfl, last⟩
    · rw [settings_skip member, cut_none member, Option.toList_none, List.nil_append]
      by_cases present : equalsSign ∈ query
      · refine iff_of_false ?_ ?_
        · intro same
          cases inner : settings query with
          | nil =>
            obtain ⟨name, value, rfl, first⟩ := List.eq_append_cons_of_mem present
            rw [settings.eq_def, cut_single first] at inner
            simp only at inner
            split at inner
            · cases inner
            · cases inner
          | cons setting rest =>
            obtain ⟨short, more, parts, ends⟩ := name_ends inner
            rw [inner, parts, List.modifyHead_cons, List.cons.injEq, Prod.mk.injEq] at same
            have longer := congrArg List.length same.1.1
            have shorter := ends.length_le
            rw [List.length_append, List.length_cons] at longer
            omega
        · rintro ⟨none, -⟩
          obtain ⟨other, inside, has⟩ := (equals_mem_iff query).mp present
          exact member (none other inside has)
      · have nowhere : ∀ other ∈ query.splitOn ampersand, equalsSign ∉ other := by
          intro other inside has
          exact present ((equals_mem_iff query).mpr ⟨other, inside, has⟩)
        refine iff_of_true ?_ ⟨fun other inside has => absurd has (nowhere other inside), ?_⟩
        · rw [settings_none present]
          symm
          apply List.filterMap_eq_nil_iff.mpr
          intro other inside
          exact cut_none (nowhere other inside)
        · apply List.Pairwise.imp_of_mem (R := fun _ _ => True)
          · intro before behind _ inside _ has
            exact absurd has (nowhere behind inside)
          · exact List.pairwise_of_forall fun _ _ => trivial

/-- What `store` does is to set one parameter after another, and these are the settings of
the components of the query exactly when no component without an equals sign stands in front
of one that has it. -/
theorem store_sets_components_iff (query : List UInt8) :
    (∀ (unset : ℕ → UInt32) (parameters : ParameterMap),
      store unset parameters query = (settings query).foldl (setParameter unset) parameters) ∧
      (settings query = componentSettings query ↔ BareLast query) :=
  ⟨fun unset parameters => store_eq_settings unset parameters query, settings_eq_iff query⟩

/-- The query `a&b=c` sets a parameter `a&b`. -/
theorem bare_component_joins_name :
    ¬ ∀ (unset : ℕ → UInt32) (parameters : ParameterMap) (query : List UInt8),
      store unset parameters query =
        (componentSettings query).foldl (setParameter unset) parameters := by
  intro sets
  have stored := sets (fun _ => 0) SortedMap.empty [97, 38, 98, 61, 99]
  have taken : settings [97, 38, 98, 61, 99] = [([97, 38, 98], [99])] :=
    @settings_last [97, 38, 98] [99] (by decide) (by decide)
  rw [store_eq_settings, taken] at stored
  exact absurd stored (by decide)

end Join.HttpRequest
