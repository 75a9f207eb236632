/-
  What the requests of both formats have in common.

  ==== Program ====

  A request begins with a reference to a base-URL variable.  A service's variable is called after
  the service: of its name only small letters and digits are kept, and everything between them
  becomes an underscore.

  A request that is merged loses the body that its method does not send, while a new one is written
  with whatever body the endpoint has.

  ==== Spec ====

  The name of a variable is made of characters that a reference to it is read with, whatever the
  service is called, and it is never empty behind the prefix (`isBaseName_baseVariableOf`).  This is
  what lets the key of a request be computed from its URL.

  An endpoint has the variable of a service that is on the path of its file, or the common one
  (`baseVariable_cases`).

  Whether inserting and merging agree on bodies depends on the endpoints only (`BodiesFit`).
-/
import RouteAtlas.Collection.Folder
import RouteAtlas.Proofs.Json.Index
import RouteAtlas.Proofs.Persisted.Url

namespace RouteAtlas

/-! ## Methods and bodies

A merge asks the method whether a request has a body, and insertion does not.  The two agree on the
endpoints of which this is true. -/

theorem Method.word_ne_empty (m : Method) : m.word ≠ "" := by
  cases m <;> decide

/-- No endpoint has a body that its method does not send. -/
def BodiesFit (endpoints : List Endpoint) : Prop :=
  ∀ e ∈ endpoints, Persisted.isBodyless (.str e.method.word) = true → e.parameters.body = none

instance (endpoints : List Endpoint) : Decidable (BodiesFit endpoints) :=
  decidable_of_iff (∀ e ∈ endpoints, Persisted.isBodyless (.str e.method.word) = true →
      e.parameters.body.isNone = true)
    (forall₂_congr fun _ _ => imp_congr_right fun _ => Option.isNone_iff_eq_none)

end RouteAtlas

namespace RouteAtlas.Label

/-! ## The suffix of a service's variable

A variable may be read as the base of a URL only if it is a plain name.  The suffix is made of small
letters, digits and underscores, and is not empty. -/

/-- A character of the name, or what stands between its words. -/
def isSuffixChar (c : Char) : Bool := Text.isSmallAlphanum c || c == '_'

/-- What may stand in a suffix may stand in a name. -/
theorem isNameCharAnyCase_of_isSuffixChar {c : Char} (h : isSuffixChar c = true) :
    Text.isNameCharAnyCase c = true := by
  have hname : Text.isNameChar c = true := by
    show (c.isUpper || c.isLower || c.isDigit || c == '_') = true
    rw [isSuffixChar, Text.isSmallAlphanum, Bool.or_eq_true, Bool.or_eq_true] at h
    rcases h with (hlower | hdigit) | hunder
    · rw [hlower, Bool.or_true, Bool.true_or, Bool.true_or]
    · rw [hdigit, Bool.or_true, Bool.true_or]
    · rw [hunder, Bool.or_true]
  rw [Text.isNameCharAnyCase, hname]
  rfl

/-- What is left between other characters is of the class, and they become one underscore.  A
    character of the result was either left alone, because no run begins there, or put in for a run. -/
theorem isSuffixChar_of_mem_joined {cs : List Char} {c : Char}
    (h : c ∈ Text.replaceMatches (Text.runRule (fun c => !Text.isSmallAlphanum c) ['_']) cs) :
    isSuffixChar c = true := by
  rw [Text.replaceMatches_eq] at h
  rcases Text.mem_replaceFrom h with ⟨-, before, rest, hnone⟩ | ⟨before, s, found, hfound, hc⟩
  · cases hsmall : Text.isSmallAlphanum c with
    | true => rw [isSuffixChar, hsmall, Bool.true_or]
    | false =>
      -- a run would begin here
      have hrun : (c :: rest).takeWhile (fun c => !Text.isSmallAlphanum c)
          = c :: rest.takeWhile (fun c => !Text.isSmallAlphanum c) := by
        rw [List.takeWhile_cons, hsmall]
        rfl
      rw [Text.runRule, hrun] at hnone
      exact absurd hnone (by simp)
  · rw [Text.runRule] at hfound
    split at hfound
    · exact absurd hfound (by simp)
    · obtain rfl := Option.some.inj hfound
      rw [List.mem_singleton.mp hc]
      rfl

/-- Stripping keeps some of the characters. -/
theorem mem_of_mem_stripChars {p : Char → Bool} {cs : List Char} {c : Char}
    (h : c ∈ Text.stripChars p cs) : c ∈ cs := by
  rw [Text.stripChars, List.mem_reverse] at h
  have hback := (List.dropWhile_sublist p).mem h
  exact (List.dropWhile_sublist p).mem (List.mem_reverse.mp hback)

/-- The suffix is not empty: without any word in the name it is a fixed one. -/
theorem variableSuffix_ne_nil (name : String) : (variableSuffix name).toList ≠ [] := by
  rw [variableSuffix]
  split
  · decide
  · rename_i hne
    rw [String.toList_ofList]
    exact fun hnil => hne hnil

/-- All of its characters are of the class. -/
theorem isSuffixChar_of_mem_variableSuffix {name : String} {c : Char}
    (h : c ∈ (variableSuffix name).toList) : isSuffixChar c = true := by
  rw [variableSuffix] at h
  split at h
  · have hall : "app".toList.all isSuffixChar = true := by decide
    exact List.all_eq_true.mp hall c h
  · rw [String.toList_ofList] at h
    exact isSuffixChar_of_mem_joined (mem_of_mem_stripChars h)

end RouteAtlas.Label

namespace RouteAtlas.Folder

open Persisted (IsBaseName)

/-! ## Variables

Which base variable an endpoint has: that of the service behind the marker on the path of its file,
else of the first service on the path, else the common one. -/

/-- The variable of a service may stand for a base. -/
theorem isBaseName_baseVariableOf (app : String) : IsBaseName (baseVariableOf app).toList := by
  have hchars : (baseVariableOf app).toList
      = "baseUrl".toList ++ '_' :: (Label.variableSuffix app).toList := by
    rw [baseVariableOf, String.toList_append]
    rfl
  rw [hchars]
  exact .service (Label.variableSuffix_ne_nil app) fun c hc =>
    Label.isNameCharAnyCase_of_isSuffixChar (Label.isSuffixChar_of_mem_variableSuffix hc)

/-- The service is on the path: one of the names there is spelt like it, in letters and digits. -/
def OnPath (path app : String) : Prop :=
  Label.lookupName app ≠ "" ∧ ∃ n ∈ pathNames path, Label.lookupName n = Label.lookupName app

/-- What is looked up is the variable of a service that is spelt so. -/
theorem exists_of_get?_baseVariables {apps : List String} {n v : String}
    (h : Dict.get? (baseVariables apps) (Label.lookupName n) = some v) :
    ∃ a ∈ apps, Label.lookupName a ≠ "" ∧ Label.lookupName n = Label.lookupName a ∧
      v = baseVariableOf a := by
  have hmem := Dict.mem_of_get?_ofList (fun _ heq => (beq_iff_eq.mp heq).symm) h
  obtain ⟨a, ha, heq⟩ := List.mem_map.mp hmem
  obtain ⟨hname, hvariable⟩ := Prod.mk.inj heq
  obtain ⟨ha, hsome⟩ := List.mem_filter.mp ha
  exact ⟨a, ha, bne_iff_ne.mp hsome, hname.symm, hvariable.symm⟩

/-- A variable behind the marker is that of a name on the path. -/
theorem exists_of_variableBehindMarker? {known : Dict String} {names : List String} {v : String}
    (h : variableBehindMarker? known names = some v) :
    ∃ n ∈ names, Dict.get? known (Label.lookupName n) = some v := by
  fun_induction variableBehindMarker? known names with
  | case1 a b rest v' hget hmarker =>
    obtain rfl := Option.some.inj h
    exact ⟨b, List.mem_cons_of_mem _ (List.mem_cons_self ..), hget⟩
  | case2 a b rest v' hget hmarker ih =>
    obtain ⟨n, hn, hfound⟩ := ih h
    exact ⟨n, List.mem_cons_of_mem _ hn, hfound⟩
  | case3 a b rest hget ih =>
    obtain ⟨n, hn, hfound⟩ := ih h
    exact ⟨n, List.mem_cons_of_mem _ hn, hfound⟩
  | case4 => exact absurd h (by simp)

/-- **An endpoint's variable** is the common one or that of a service on the path of its file.

    The names are searched twice, behind a marker first and then anywhere on the path, and either
    search finds a service whose name is on the path. -/
theorem baseVariable_cases (e : Endpoint) (apps : List String) :
    baseVariable e apps = "baseUrl" ∨
      ∃ a ∈ apps, OnPath e.sourceFile a ∧ baseVariable e apps = baseVariableOf a := by
  have hservice : ∀ n ∈ pathNames e.sourceFile, ∀ v,
      Dict.get? (baseVariables apps) (Label.lookupName n) = some v →
        ∃ a ∈ apps, OnPath e.sourceFile a ∧ v = baseVariableOf a := by
    intro n hn v hget
    obtain ⟨a, ha, hsome, hname, hv⟩ := exists_of_get?_baseVariables hget
    exact ⟨a, ha, ⟨hsome, n, hn, hname⟩, hv⟩
  cases hmarker : variableBehindMarker? (baseVariables apps) (pathNames e.sourceFile) with
  | some v =>
    have hv : baseVariable e apps = v := by
      unfold baseVariable
      dsimp only
      rw [hmarker]
    obtain ⟨n, hn, hget⟩ := exists_of_variableBehindMarker? hmarker
    rw [hv]
    exact .inr (hservice n hn v hget)
  | none =>
    have hnames : baseVariable e apps = ((pathNames e.sourceFile).findSome? fun n =>
        Dict.get? (baseVariables apps) (Label.lookupName n)).getD "baseUrl" := by
      unfold baseVariable
      dsimp only
      rw [hmarker]
    rw [hnames]
    cases hfound : (pathNames e.sourceFile).findSome? fun n =>
        Dict.get? (baseVariables apps) (Label.lookupName n) with
    | none => exact .inl rfl
    | some v =>
      obtain ⟨n, hn, hget⟩ := List.exists_of_findSome?_eq_some hfound
      exact .inr (hservice n hn v hget)

/-- It is among the names that both documents give to base URLs. -/
theorem baseVariable_mem (e : Endpoint) (apps : List String) :
    baseVariable e apps = "baseUrl" ∨ baseVariable e apps ∈ apps.map baseVariableOf := by
  rcases baseVariable_cases e apps with hcommon | ⟨a, ha, -, hservice⟩
  · exact .inl hcommon
  · exact .inr (hservice ▸ List.mem_map_of_mem ha)

/-- The variable of an endpoint may stand for a base. -/
theorem isBaseName_baseVariable (e : Endpoint) (apps : List String) :
    IsBaseName (baseVariable e apps).toList := by
  rcases baseVariable_cases e apps with hcommon | ⟨a, -, -, hservice⟩
  · rw [hcommon]
    exact .common
  · rw [hservice]
    exact isBaseName_baseVariableOf a

end RouteAtlas.Folder
