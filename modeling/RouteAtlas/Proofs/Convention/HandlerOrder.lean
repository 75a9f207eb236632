/-
  When the body of a handler does not depend on the handlers before it.

  ==== Problem ====

  All handlers of a file are read in one session, so that a handler finds in its memory what those
  before it have resolved.  Moving, adding or removing handlers should leave the bodies of the others
  alone.  It does not always: a type that nests too deep, or whose declarations mention each other in
  a circle, looks different with a memory and without.

  ==== Program ====

  1. **Histories** - whatever a handler does to a session, calls do (`After`).

  2. **Two runs of one handler** - `Agrees`: in any two sessions of a file the two runs give results
     that are related, and leave sessions of the file.

  3. **Together** - `shapes_after_any_history`: settled types, and handlers whose parameters have
     settled types, are the same after any history.  `shape_depends_on_history` and
     `circle_depends_on_history` are declarations for which this fails, one in each way.

  ==== The crux ====

  The body comes of the parameters alone.  Responses are resolved before it, in the same session, and
  may well differ between the two runs; all that is needed of them is that they leave a session that
  some calls would leave.
-/
import RouteAtlas.Proofs.Shape.History
import RouteAtlas.Proofs.Convention.Body
import RouteAtlas.Proofs.Syntax.Walk

namespace RouteAtlas

open Syntax (Node Site)
open Shape (Resolved Yields Session Call Definition Resolving)

/-! ## Histories

The session of a file goes from handler to handler.  Two readings of the same handler, in two
sessions of the file, agree on all types that are settled. -/

namespace Shape

/-- Some calls leave this session. -/
def After (definitions : Dict Definition) (s : Session) : Prop :=
  ∃ calls, s = Session.after definitions calls

theorem after_nil (definitions : Dict Definition) : After definitions {} := ⟨[], rfl⟩

theorem After.run {definitions : Dict Definition} {s : Session} (h : After definitions s)
    (call : Call) : After definitions (call.run definitions s).2 := by
  obtain ⟨calls, rfl⟩ := h
  refine ⟨calls ++ [call], ?_⟩
  unfold Session.after
  rw [List.foldl_append]
  rfl

/-- A call leaves a session of the file. -/
theorem yields_after (nodes : Dict Node) (call : Call) :
    Yields (After (declarations nodes)) Resolved (call.run (declarations nodes)) := by
  rintro s ⟨calls, rfl⟩
  have hsound := sound_after (declaresResolved_declarations nodes) calls
  exact ⟨(yields_run (declaresResolved_declarations nodes) call _ hsound).1, After.run ⟨calls, rfl⟩ call⟩

/-- In any two sessions of a file the two computations give related results, and leave sessions of
    the file. -/
def Agrees {α : Type} (definitions : Dict Definition) (R : α → α → Prop) (m m' : Resolving α) : Prop :=
  ∀ s s', After definitions s → After definitions s' →
    R (m s).1 (m' s').1 ∧ After definitions (m s).2 ∧ After definitions (m' s').2

namespace Agrees

variable {α β : Type} {definitions : Dict Definition} {R : α → α → Prop} {Q : β → β → Prop}

theorem pure {a a' : α} (h : R a a') : Agrees definitions R (Pure.pure a) (Pure.pure a') :=
  fun _ _ hs hs' => ⟨h, hs, hs'⟩

/-- One computation after the other. -/
theorem bind {m m' : Resolving α} {f f' : α → Resolving β} (hm : Agrees definitions R m m')
    (hf : ∀ a a', R a a' → Agrees definitions Q (f a) (f' a')) :
    Agrees definitions Q (m >>= f) (m' >>= f') := by
  intro s s' hs hs'
  obtain ⟨ha, hleft, hright⟩ := hm s s' hs hs'
  exact hf (m s).1 (m' s').1 ha (m s).2 (m' s').2 hleft hright

/-- What yields anything at all leaves sessions of the file. -/
theorem ofYields {P : α → Prop} {m : Resolving α} (h : Yields (After definitions) P m) :
    Agrees definitions (fun _ _ => True) m m :=
  fun s s' hs hs' => ⟨trivial, (h s hs).2, (h s' hs').2⟩

/-- A loop, step by step. -/
theorem foldlM {γ : Type} {step : α → γ → Resolving α} (entries : List γ) {a a' : α} (hstart : R a a')
    (h : ∀ a a', R a a' → ∀ c ∈ entries, Agrees definitions R (step a c) (step a' c)) :
    Agrees definitions R (entries.foldlM step a) (entries.foldlM step a') := by
  induction entries generalizing a a' with
  | nil => exact .pure hstart
  | cons c entries ih =>
    rw [List.foldlM_cons, List.foldlM_cons]
    refine (h a a' hstart c List.mem_cons_self).bind fun b b' hb => ?_
    exact ih hb fun b b' hb c hc => h b b' hb c (List.mem_cons_of_mem _ hc)

/-- A settled type is the same in both. -/
theorem resolve {type : Node} (h : (Call.typed maxTypeLevels (some type)).Settled definitions) :
    Agrees definitions (· = ·) (Shape.resolve definitions (.ofNode type))
      (Shape.resolve definitions (.ofNode type)) := by
  rintro s s' ⟨calls, rfl⟩ ⟨calls', rfl⟩
  refine ⟨(h.run_eq_fresh calls).trans (h.run_eq_fresh calls').symm, ?_, ?_⟩
  · exact After.run ⟨calls, rfl⟩ (.typed maxTypeLevels (some type))
  · exact After.run ⟨calls', rfl⟩ (.typed maxTypeLevels (some type))

end Agrees

end Shape

/-! ## Handlers

By the parts of a handler: a parameter, all of them, the decorators, the handler. -/

namespace Convention.Controller

open Shape (Agrees After yields_after)

/-- The types of the parameters are settled. -/
def SettledParameters (definitions : Dict Definition) (params : List Site) : Prop :=
  ∀ param ∈ params, ∀ type, param.node.field? "type" = some type →
    (Call.typed Shape.maxTypeLevels (some type)).Settled definitions

/-- The types of a handler's parameters are settled. -/
def SettledHandler (definitions : Dict Definition) (member : Site) : Prop :=
  ∀ params, callableParams? member.node = some params → SettledParameters definitions params

/-- Two readings of the parameters that know the same of the body. -/
def SameBodyNotes (notes notes' : ParameterNotes) : Prop :=
  notes.parameters.body = notes'.parameters.body ∧ notes.bodyFields = notes'.bodyFields

/-- The body that a handler was found to have, if it is one. -/
def bodyOf (handled : Option Endpoint) : Option (Option Shape) := handled.map (·.parameters.body)

variable {nodes : Dict Node}

/-- One decorator more says the same of the body in both.  The shape of a whole body is settled by
    hypothesis, and what query and path parameters are resolved to is no part of the body. -/
theorem agrees_parameterNotes {type : Option Node}
    (htype : ∀ t, type = some t →
      (Call.typed Shape.maxTypeLevels (some t)).Settled (Shape.declarations nodes))
    {notes notes' : ParameterNotes} (h : SameBodyNotes notes notes') (decorator : Node) :
    Agrees (Shape.declarations nodes) SameBodyNotes
      (ParameterNotes.add (Shape.declarations nodes) type notes decorator)
      (ParameterNotes.add (Shape.declarations nodes) type notes' decorator) := by
  have hnamed : ∀ place key, Agrees (Shape.declarations nodes) (fun _ _ => True)
      (namedParams (Shape.declarations nodes) place key type)
      (namedParams (Shape.declarations nodes) place key type) := fun place key =>
    .ofYields (yields_namedParams (yields_after nodes) place key type)
  have hbody : ∀ (key : String) (shape shape' : Shape), shape = shape' →
      Agrees (Shape.declarations nodes) SameBodyNotes
        (if key != "" then pure { notes with bodyFields := Dict.put notes.bodyFields key shape }
         else pure { notes with parameters := { notes.parameters with body := some shape } })
        (if key != "" then pure { notes' with bodyFields := Dict.put notes'.bodyFields key shape' }
         else pure { notes' with parameters := { notes'.parameters with body := some shape' } }) := by
    rintro key shape _ rfl
    split
    · exact .pure ⟨h.1, congrArg (Dict.put · key shape) h.2⟩
    · exact .pure ⟨rfl, h.2⟩
  unfold ParameterNotes.add
  dsimp only
  split
  · exact (hnamed _ _).bind fun _ _ _ => .pure h
  · exact (hnamed _ _).bind fun _ _ _ => .pure h
  · cases type with
    | none => exact hbody _ Shape.unknown Shape.unknown rfl
    | some t => exact (Agrees.resolve (htype t rfl)).bind (hbody _)
  · exact .pure h

/-- The parameters give the same body in both. -/
theorem agrees_parametersOf {params : List Site}
    (h : SettledParameters (Shape.declarations nodes) params) :
    Agrees (Shape.declarations nodes) (fun p p' => p.body = p'.body)
      (parametersOf (Shape.declarations nodes) params)
      (parametersOf (Shape.declarations nodes) params) := by
  unfold parametersOf
  refine (Agrees.foldlM (R := SameBodyNotes) params ⟨rfl, rfl⟩
    fun notes notes' hnotes param hparam => ?_).bind fun notes notes' hnotes => ?_
  · exact Agrees.foldlM _ hnotes fun notes notes' hnotes d _ =>
      agrees_parameterNotes (h param hparam) hnotes d
  · refine .pure ?_
    rw [hnotes.1, hnotes.2]
    split
    · rfl
    · exact hnotes.1

theorem agrees_messageBody {params : List Site}
    (h : SettledParameters (Shape.declarations nodes) params) :
    Agrees (Shape.declarations nodes) (· = ·) (messageBody (Shape.declarations nodes) params)
      (messageBody (Shape.declarations nodes) params) := by
  unfold messageBody
  dsimp only
  split
  · rename_i type htype
    obtain ⟨param, hfind, hfield⟩ := Option.bind_eq_some_iff.mp htype
    have hsettled := h param (List.mem_of_find?_eq_some hfind) type hfield
    exact (Agrees.resolve hsettled).bind fun shape shape' heq => .pure (congrArg some heq)
  · exact .pure rfl

/-- What decorates a handler says the same of its method and its remote call in any session.  The
    documented responses may differ from session to session, as long as the method and the remote
    call do not. -/
theorem agrees_handlerNotes (handler controller : String) {notes notes' : HandlerNotes}
    (h : notes.method = notes'.method ∧ notes.rpc = notes'.rpc) (decorator : Node) :
    Agrees (Shape.declarations nodes)
      (fun notes notes' => notes.method = notes'.method ∧ notes.rpc = notes'.rpc)
      (HandlerNotes.add (Shape.declarations nodes) handler controller notes decorator)
      (HandlerNotes.add (Shape.declarations nodes) handler controller notes' decorator) := by
  unfold HandlerNotes.add
  split
  · exact .pure h
  dsimp only
  split
  · exact .pure ⟨rfl, h.2⟩
  split
  · exact .pure ⟨h.1, rfl⟩
  split
  · exact .pure h
  split
  · exact .pure h
  split
  · unfold responseOf
    have hbody : ∀ type, Agrees (Shape.declarations nodes) (fun _ _ => True)
        (responseBody (Shape.declarations nodes) type) (responseBody (Shape.declarations nodes) type) :=
      fun type => .ofYields (yields_responseBody (yields_after nodes) type)
    refine Agrees.bind ((hbody _).bind fun _ _ _ => Agrees.pure (R := fun _ _ => True) trivial)
      fun _ _ _ => .pure h
  · exact .pure h

/-- A handler with settled types has the same body in both.  Once the decorators agree on the method
    and on the remote call, both runs take the same branch, and there the parameters agree. -/
theorem agrees_handlerOf (file controller base : String) {member : Site}
    (h : SettledHandler (Shape.declarations nodes) member) :
    Agrees (Shape.declarations nodes) (fun handled handled' => bodyOf handled = bodyOf handled')
      (handlerOf (Shape.declarations nodes) file controller base member)
      (handlerOf (Shape.declarations nodes) file controller base member) := by
  unfold handlerOf
  split
  · exact .pure rfl
  rename_i params hparams
  have hsettled := h params hparams
  refine (Agrees.foldlM (R := fun notes notes' : HandlerNotes =>
      notes.method = notes'.method ∧ notes.rpc = notes'.rpc) _ ⟨rfl, rfl⟩
    fun notes notes' hnotes d _ => agrees_handlerNotes _ controller hnotes d).bind
    fun notes notes' hnotes => ?_
  dsimp only
  rw [hnotes.1, hnotes.2]
  split
  · exact .pure rfl
  · exact (agrees_parametersOf hsettled).bind fun p p' hp => .pure (congrArg some hp)
  · refine (agrees_parametersOf hsettled).bind fun p p' hp => ?_
    rw [hp]
    split
    · exact .pure rfl
    · exact (agrees_messageBody hsettled).bind fun body body' hbody => .pure (congrArg some hbody)

/-- **Handlers leave a session of their file.** -/
theorem after_handlers (file : String) (handlers : List (String × String × Site)) :
    After (Shape.declarations nodes) (((handlers.mapM fun handler =>
      handlerOf (Shape.declarations nodes) file handler.1 handler.2.1 handler.2.2).run {}).2) := by
  have hyields := Yields.mapM handlers fun handler _ =>
    yields_handlerOf (yields_after nodes) file handler.1 handler.2.1 handler.2.2
  exact (hyields {} (Shape.after_nil _)).2

end Convention.Controller

open Convention.Controller (handlerOf SettledHandler bodyOf)

/-- **What was resolved before does not show** in a type that is settled: its names lead to no circle
    through two declarations, and a fresh session resolves it without a cut by depth.  So after any
    calls it has the shape that a fresh session gives it; and a handler whose parameters have such
    types has the same body after any other handlers of its file as alone. -/
theorem shapes_after_any_history (definitions : Dict Definition) :
    (∀ call : Call, call.Settled definitions → ∀ calls : List Call,
      ((call.run definitions).run (Session.after definitions calls)).1 =
        ((call.run definitions).run {}).1) ∧
    (∀ nodes : Dict Node, Shape.declarations nodes = definitions →
      ∀ (file controller base : String) (member : Site), SettledHandler definitions member →
      ∀ before : List (String × String × Site),
        bodyOf ((handlerOf definitions file controller base member).run
          ((before.mapM fun handler => handlerOf definitions file handler.1 handler.2.1
            handler.2.2).run {}).2).1 =
        bodyOf ((handlerOf definitions file controller base member).run {}).1) := by
  refine ⟨fun call h calls => h.run_eq_fresh calls, ?_⟩
  rintro nodes rfl file controller base member h before
  exact (Convention.Controller.agrees_handlerOf file controller base h _ _
    (Convention.Controller.after_handlers file before) (Shape.after_nil _)).1

namespace Shape

/-- A folder is in another folder; a shelf begins with one. -/
def folderDefinitions : Dict Definition :=
  [("Folder", .interface [] [("parent", false, .named "Folder")]),
    ("Shelf", .interface [] [("first", false, .named "Folder")])]

/-- A folder refers to folders only. -/
theorem eq_of_refers_folder {name : String} (h : Refers folderDefinitions "Folder" name) :
    name = "Folder" := by
  obtain ⟨d, hd, hname⟩ := h
  have hfolder : declaration? folderDefinitions "Folder" =
      some (.interface [] [("parent", false, .named "Folder")]) := rfl
  obtain rfl := Option.some.inj (hfolder.symm.trans hd)
  have hnames : (Definition.interface [] [("parent", false, .named "Folder")]).names =
      ["Folder"] := rfl
  rw [hnames] at hname
  exact List.mem_singleton.mp hname

/-- Calls that mention the folder alone are settled, unless they go too deep. -/
theorem settled_folder {call : Call} (hnames : call.names = ["Folder"])
    (hwhole : .depth ∉ ((call.run folderDefinitions).run {}).2.cuts) :
    call.Settled folderDefinitions := by
  have hself : ∀ name, Leads folderDefinitions "Folder" name → name = "Folder" := by
    intro name hleads
    induction hleads with
    | refl => rfl
    | tail _ hrefers ih => exact eq_of_refers_folder (ih ▸ hrefers)
  refine ⟨fun n hn a b ha hab _ => ?_, hwhole⟩
  rw [hnames] at hn
  obtain rfl := List.mem_singleton.mp hn
  exact (hself a ha).trans (hself b (ha.trans hab)).symm

/-- Resolving a folder goes not too deep. -/
theorem depth_notMem_cuts_folder :
    .depth ∉ ((lookup folderDefinitions maxTypeLevels "Folder").run {}).2.cuts := by
  have hcuts : ((lookup folderDefinitions maxTypeLevels "Folder").run {}).2.cuts = [] := rfl
  rw [hcuts]
  exact List.not_mem_nil

/-- The kind of the shape that a path of properties leads to. -/
def kindAt (s : Shape) : List String → Option Kind
  | [] => some s.kind
  | name :: names => (Dict.get? s.properties name).bind fun property => property.kindAt names

end Shape

open Shape (folderDefinitions settled_folder depth_notMem_cuts_folder)

namespace FolderFile

open Syntax.Node (branch leaf)

/-- The annotation of a name with a named type. -/
def typeNote (type : String) : Node :=
  branch "type_annotation" "type" "" [leaf "type_identifier" "" type]

/-- An interface with one member of a named type. -/
def interfaceNode (member type : String) : Node :=
  branch "interface_declaration" "" "" [branch "interface_body" "body" ""
    [branch "property_signature" "" ""
      [leaf "property_identifier" "name" member, typeNote type]]]

/-- The declarations of folders and shelves, as they are written. -/
def folderNodes : Dict Node :=
  [("Folder", interfaceNode "parent" "Folder"), ("Shelf", interfaceNode "first" "Folder")]

/-- A decorator without arguments. -/
def decoratorNamed (name : String) : Node :=
  branch "decorator" "" "" [branch "call_expression" "" ""
    [leaf "identifier" "function" name, leaf "arguments" "arguments" ""]]

/-- A handler with a body of some type. -/
def handlerTaking (type : String) : Site where
  node := branch "method_definition" "" "" [branch "formal_parameters" "parameters" ""
    [branch "required_parameter" "" "" [decoratorNamed "Body", typeNote type]]]
  before := [decoratorNamed "Post"]
  above := []

/-- The type behind an annotation is the one that is named. -/
theorem unannotated_typeNote (type : String) :
    Shape.TypeExpr.unannotated (typeNote type) = some (leaf "type_identifier" "" type) := by
  have hnote : ["type_annotation", "opting_type_annotation"].contains (typeNote type).kind :=
    rfl
  have htype : Shape.TypeExpr.unannotated (leaf "type_identifier" "" type) =
      some (leaf "type_identifier" "" type) := by
    rw [Shape.TypeExpr.unannotated]
    rfl
  rw [Shape.TypeExpr.unannotated, if_pos hnote]
  exact htype

theorem ofNode_typeNote (type : String) : Shape.TypeExpr.ofNode (typeNote type) = .named type := by
  rw [Shape.TypeExpr.ofNode]
  split
  · rename_i h
    cases (unannotated_typeNote type).symm.trans h
  · rename_i h
    cases (unannotated_typeNote type).symm.trans h
    rfl

/-- The declarations of the file are those of folders and shelves. -/
theorem declarations_folderNodes : Shape.declarations folderNodes = folderDefinitions := by
  have hinterface : ∀ member type, Definition.ofNode (interfaceNode member type) =
      .interface [] [(member, false, .named type)] := by
    intro member type
    rw [← ofNode_typeNote type]
    rfl
  show [("Folder", Definition.ofNode (interfaceNode "parent" "Folder")),
    ("Shelf", Definition.ofNode (interfaceNode "first" "Folder"))] = folderDefinitions
  rw [hinterface, hinterface]
  rfl

/-- A handler that takes a folder has settled types.  It has one parameter, whose type has one name,
    and laying that out does not reach the depth cap. -/
theorem settledHandler_folder : SettledHandler folderDefinitions (handlerTaking "Folder") := by
  intro params hparams param hparam type htype
  have hcallable : (Convention.Controller.callableParams? (handlerTaking "Folder").node).map
      (fun params => params.map (·.node.field? "type")) = some [some (typeNote "Folder")] :=
    rfl
  rw [hparams] at hcallable
  have hfields : params.map (·.node.field? "type") = [some (typeNote "Folder")] :=
    Option.some.inj hcallable
  have hmem : some type ∈ params.map (·.node.field? "type") := htype ▸ List.mem_map_of_mem hparam
  rw [hfields] at hmem
  obtain rfl := Option.some.inj (List.mem_singleton.mp hmem)
  have hnamed : Shape.TypeExpr.ofNode? (some (typeNote "Folder")) = .named "Folder" :=
    ofNode_typeNote "Folder"
  refine settled_folder ?_ ?_
  · show (Shape.TypeExpr.ofNode? (some (typeNote "Folder"))).names = ["Folder"]
    rw [hnamed]
    rfl
  · show Shape.Cut.depth ∉ ((Shape.shapeAt (Shape.lookup folderDefinitions) Shape.maxTypeLevels
      (Shape.TypeExpr.ofNode? (some (typeNote "Folder")))).run {}).2.cuts
    rw [hnamed, Shape.maxTypeLevels, Shape.shapeAt]
    exact depth_notMem_cuts_folder

/-- A handler that takes a folder has the shape of one as its body. -/
theorem bodyOf_handlerTaking_folder :
    bodyOf ((handlerOf folderDefinitions "shop.ts" "Shop" "/shop" (handlerTaking "Folder")).run {}).1 =
      some (some ((Shape.resolveNamed folderDefinitions "Folder").run {}).1) := by
  have hnamed : Shape.resolve folderDefinitions (.ofNode (typeNote "Folder")) =
      Shape.resolveNamed folderDefinitions "Folder" := by
    rw [ofNode_typeNote, Shape.resolve, Shape.maxTypeLevels, Shape.shapeAt]
    rfl
  rw [← hnamed]
  rfl

end FolderFile

open FolderFile (handlerTaking folderNodes declarations_folderNodes settledHandler_folder
  bodyOf_handlerTaking_folder)

/-- A declaration that mentions itself, resolved after another that mentions it too; and handlers that
    take the two. -/
theorem shapes_after_any_history_folder :
    (((Call.named Shape.maxTypeLevels "Folder").run folderDefinitions).run
        (Session.after folderDefinitions [.named Shape.maxTypeLevels "Shelf"])).1 =
      (((Call.named Shape.maxTypeLevels "Folder").run folderDefinitions).run {}).1 ∧
    (((Shape.resolveNamed folderDefinitions "Folder").run {}).1.kindAt ["parent"]) = some .object ∧
    bodyOf ((handlerOf folderDefinitions "shop.ts" "Shop" "/shop" (handlerTaking "Folder")).run
        (([("Shop", "/shop", handlerTaking "Shelf")].mapM fun handler =>
          handlerOf folderDefinitions "shop.ts" handler.1 handler.2.1 handler.2.2).run {}).2).1 =
      some (some ((Shape.resolveNamed folderDefinitions "Folder").run {}).1) := by
  obtain ⟨hcalls, hhandlers⟩ := shapes_after_any_history folderDefinitions
  refine ⟨hcalls _ (settled_folder rfl ?_) _, ?_, ?_⟩
  · exact depth_notMem_cuts_folder
  · rfl
  · rw [← bodyOf_handlerTaking_folder]
    exact hhandlers folderNodes declarations_folderNodes "shop.ts" "Shop" "/shop" _
      settledHandler_folder _

namespace Shape

/-- Declarations that nest so deep that the last type is below the deepest level of the first. -/
def nestedDefinitions : Dict Definition :=
  [("A", .interface [] [("b", false, .named "B")]), ("B", .interface [] [("c", false, .named "C")]),
    ("C", .interface [] [("d", false, .named "D")]), ("D", .interface [] [("e", false, .named "E")]),
    ("E", .interface [] [("label", false, .fixed text)])]

/-- **The shape of a name depends on what was resolved before**: the text at the end is cut off, unless
    the name next to it is remembered. -/
theorem shape_depends_on_history :
    ¬∀ (definitions : Dict Definition) (names : List String) (name : String),
      ((resolveNamed definitions name).run
        (Session.after definitions (names.map (.named maxTypeLevels)))).1 =
      ((resolveNamed definitions name).run {}).1 := by
  intro hall
  have hremembered : ((resolveNamed nestedDefinitions "A").run
      (Session.after nestedDefinitions (["E"].map (.named maxTypeLevels)))).1.kindAt
        ["b", "c", "d", "e", "label"] = some .string := rfl
  have hfresh : ((resolveNamed nestedDefinitions "A").run {}).1.kindAt
      ["b", "c", "d", "e", "label"] = some .object := rfl
  rw [hall nestedDefinitions ["E"] "A", hfresh] at hremembered
  cases hremembered

/-- Two declarations that mention each other. -/
def mutualDefinitions : Dict Definition :=
  [("A", .interface [] [("b", false, .named "B")]), ("B", .interface [] [("a", false, .named "A")])]

/-- **So does the shape of a name on a circle**: what is remembered of the one is the whole of it, where
    a fresh session has the other unknown within it. -/
theorem circle_depends_on_history :
    ((resolveNamed mutualDefinitions "B").run
      (Session.after mutualDefinitions [.named maxTypeLevels "A"])).1.kindAt ["a", "b", "a"] =
        some .object ∧
    ((resolveNamed mutualDefinitions "B").run {}).1.kindAt ["a", "b", "a"] = none := ⟨rfl, rfl⟩

end Shape

end RouteAtlas
