/-
  Which properties of a request's body are required.

  ==== Problem ====

  A body is described by a schema of a validation library, by a declared type, or by several decorated
  parameters that each give a part of it by name.  A reader of the collection goes by the required
  list of the body; so it has to say the same as the properties do, in a body of either kind, at every
  depth, and whatever the session of the file has resolved before.

  ==== Program ====

  1. **Parts of a body** - every part given by name is a type of its own, hence not optional
     (`ParameterNotes.Sound`): a body made of them rightly requires them all (`inStep_keyedBody`).

  2. **A file** - the handlers of a file are read one after the other in one session, which stays sound
     through all of them (`yields_endpointsOf`).

  3. **Together** - `required_inStep`.

  ==== The crux ====

  The list of a body made of parts is that of all its keys, right only because no part is marked
  optional.  The parts come out of the session's memory, so this rests on what was resolved before.
-/
import RouteAtlas.Proofs.Shape.Resolved
import RouteAtlas.Convention.Controller

namespace RouteAtlas

open Syntax (Node Site)
open Source (Bundle File)
open Shape (InStep Resolved Yields Session Call Definition)

namespace Convention.Controller

/-! ## Parameters

The body of a request is put together from the parameters of a handler: given whole by one of them,
or in parts by name.  Every part is a shape that a session has resolved. -/

/-- Bodies read so far are in step, and the parts given by name resolved and of distinct names. -/
structure ParameterNotes.Sound (notes : ParameterNotes) : Prop where
  body : ∀ b, notes.parameters.body = some b → InStep b
  distinct : (Dict.keys notes.bodyFields).Nodup
  fields : ∀ e ∈ notes.bodyFields, Resolved e.2

/-- No part of the body is optional, so that all of them are listed. -/
theorem inStep_keyedBody {fields : Dict Shape} (hdistinct : (Dict.keys fields).Nodup)
    (h : ∀ e ∈ fields, Resolved e.2) : InStep (keyedBody fields) := by
  refine .intro ?_ hdistinct (fun e he => (h e he).1) (fun i hi => nomatch hi)
  have hall : fields.filter (fun e => !e.2.optional) = fields := by
    rw [List.filter_eq_self]
    intro e he
    rw [(h e he).2]
    rfl
  unfold keyedBody Shape.requiredOf
  rw [hall]
  rfl

variable {definitions : Dict Definition} {I : Session → Prop}
  (hcalls : ∀ call : Call, Yields I Resolved (call.run definitions))
include hcalls

/-- A type written in the file resolves to a shape in step. -/
theorem yields_resolve (type : Node) :
    Yields I Resolved (Shape.resolve definitions (.ofNode type)) :=
  hcalls (.typed Shape.maxTypeLevels (some type))

/-- The word for the type of a parameter keeps the session sound. -/
theorem yields_primitiveWord (type : Option Node) :
    Yields I (fun _ => True) (primitiveWord definitions type) := by
  unfold primitiveWord
  cases type with
  | none => exact .pure trivial
  | some type => exact (yields_resolve hcalls type).bind fun _ _ => .pure trivial

theorem yields_namedParams (place : ParamPlace) (key : String) (type : Option Node) :
    Yields I (fun _ => True) (namedParams definitions place key type) := by
  unfold namedParams
  split
  · exact (yields_primitiveWord hcalls type).bind fun _ _ => .pure trivial
  · cases type with
    | none => exact .pure trivial
    | some type => exact (yields_resolve hcalls type).bind fun _ _ => .pure trivial

/-- One decorator more keeps the notes on the parameters sound.  Only a body decorator adds a shape,
    and it is resolved or unknown. -/
theorem yields_parameterNotes (type : Option Node) {notes : ParameterNotes} (h : notes.Sound)
    (decorator : Node) :
    Yields I ParameterNotes.Sound (ParameterNotes.add definitions type notes decorator) := by
  -- a body is given in parts when it has a key, and whole otherwise
  have hbody : ∀ (key : String) (shape : Shape), Resolved shape → Yields I ParameterNotes.Sound
      (if key != "" then pure { notes with bodyFields := Dict.put notes.bodyFields key shape }
       else pure { notes with parameters := { notes.parameters with body := some shape } }) := by
    intro key shape hshape
    split
    · refine .pure ⟨h.body, Dict.nodup_keys_put h.distinct _ _, ?_⟩
      rintro ⟨k, v⟩ he
      rcases Dict.mem_put he with hold | ⟨rfl, -⟩
      · exact h.fields _ hold
      · exact hshape
    · exact .pure ⟨fun b hb => Option.some.inj hb ▸ hshape.1, h.distinct, h.fields⟩
  unfold ParameterNotes.add
  dsimp only
  split
  · exact (yields_namedParams hcalls _ _ type).bind fun _ _ => .pure ⟨h.body, h.distinct, h.fields⟩
  · exact (yields_namedParams hcalls _ _ type).bind fun _ _ => .pure ⟨h.body, h.distinct, h.fields⟩
  · cases type with
    | none => exact hbody _ Shape.unknown Shape.resolved_unknown
    | some type => exact (yields_resolve hcalls type).bind (hbody _)
  · exact .pure h

/-- **The body of a handler's parameters is in step**, given whole or in parts. -/
theorem yields_parametersOf (params : List Site) :
    Yields I (fun p => ∀ b, p.body = some b → InStep b) (parametersOf definitions params) := by
  unfold parametersOf
  have hnone : ({} : ParameterNotes).Sound :=
    ⟨nofun, List.nodup_nil, fun _ he => absurd he List.not_mem_nil⟩
  refine (Yields.foldlM params hnone fun notes hnotes param _ => ?_).bind fun notes hnotes => ?_
  · exact Yields.foldlM _ hnotes fun notes hnotes d _ => yields_parameterNotes hcalls _ hnotes d
  · refine .pure fun b hb => ?_
    split at hb
    · cases hb
      exact inStep_keyedBody hnotes.distinct hnotes.fields
    · exact hnotes.body b hb

/-- The body of a message is in step, if it has one. -/
theorem yields_messageBody (params : List Site) :
    Yields I (fun body => ∀ b, body = some b → InStep b) (messageBody definitions params) := by
  unfold messageBody
  dsimp only
  split
  · refine (yields_resolve hcalls _).bind fun shape hshape => .pure fun b hb => ?_
    exact Option.some.inj hb ▸ hshape.1
  · exact .none

/-! ## Handlers and files

From one handler to a class, and from there to all classes of a file. -/

/-- A name resolves to a shape in step. -/
theorem yields_resolveNamed (name : String) :
    Yields I Resolved (Shape.resolveNamed definitions name) :=
  hcalls (.named Shape.maxTypeLevels name)

/-- The body of a response is in step, if it has one. -/
theorem yields_responseBody (type : Option Node) :
    Yields I (fun body => ∀ b, body = some b → InStep b) (responseBody definitions type) := by
  unfold responseBody
  cases type with
  | none => exact .none
  | some type =>
    dsimp only
    split
    · refine (yields_resolveNamed hcalls _).bind fun s hs => .pure fun b hb => ?_
      exact Option.some.inj hb ▸ hs.1
    · split
      · split
        · refine (yields_resolveNamed hcalls _).bind fun s hs => .pure fun b hb => ?_
          exact Option.some.inj hb ▸ Shape.inStep_arrayOf hs.1
        · exact .none
      · exact .none
    · exact .none

/-- The bodies of documented responses are in step. -/
def ResponsesInStep (responses : List Response) : Prop :=
  ∀ r ∈ responses, ∀ b, r.body = some b → InStep b

/-- One decorator more keeps the documented responses in step.  Only a decorator that documents a
    response adds one, and its body was resolved. -/
theorem yields_handlerNotes (handler controller : String) {notes : HandlerNotes}
    (h : ResponsesInStep notes.responses) (decorator : Node) :
    Yields I (fun notes => ResponsesInStep notes.responses)
      (HandlerNotes.add definitions handler controller notes decorator) := by
  unfold HandlerNotes.add
  split
  · exact .pure h
  dsimp only
  split
  · exact .pure h
  split
  · exact .pure h
  split
  · exact .pure h
  split
  · exact .pure h
  split
  · unfold responseOf
    refine Yields.bind ((yields_responseBody hcalls _).bind fun body hbody =>
      Yields.pure (Q := fun r : Response => ∀ b, r.body = some b → InStep b) hbody)
      fun r hr => .pure fun r' hr' => ?_
    rcases List.mem_append.mp hr' with hold | hnew
    · exact h r' hold
    · exact List.mem_singleton.mp hnew ▸ hr
  · exact .pure h

/-- The bodies of an endpoint's requests and responses are in step. -/
structure BodiesInStep (e : Endpoint) : Prop where
  request : ∀ b, e.parameters.body = some b → InStep b
  responses : ResponsesInStep e.responses

/-- A handler has bodies in step.  The bodies come from the notes on the parameters, or from the
    message of a remote call that has no body of its own. -/
theorem yields_handlerOf (file controller base : String) (member : Site) :
    Yields I (fun handled => ∀ e, handled = some e → BodiesInStep e)
      (handlerOf definitions file controller base member) := by
  unfold handlerOf
  split
  · exact .none
  refine (Yields.foldlM _ (R := fun notes : HandlerNotes => ResponsesInStep notes.responses)
    (fun _ hr => absurd hr List.not_mem_nil)
    fun notes hnotes d _ => yields_handlerNotes hcalls _ controller hnotes d).bind fun notes hnotes => ?_
  dsimp only
  split
  · exact .none
  · refine (yields_parametersOf hcalls _).bind fun p hp => .pure fun e he => ?_
    cases he
    exact ⟨hp, hnotes⟩
  · refine (yields_parametersOf hcalls _).bind fun p hp => ?_
    split
    · rename_i body hbody
      refine .pure fun e he => ?_
      cases he
      exact ⟨fun b hb => hp b (hbody.trans hb), hnotes⟩
    · refine (yields_messageBody hcalls _).bind fun body hbody => .pure fun e he => ?_
      cases he
      exact ⟨hbody, hnotes⟩

theorem yields_endpointsOf (file : String) (cls : Site) :
    Yields I (fun endpoints => ∀ e ∈ endpoints, BodiesInStep e) (endpointsOf definitions file cls) := by
  unfold endpointsOf
  refine (Yields.mapM _ fun member _ => yields_handlerOf hcalls file _ _ member).bind
    fun handled hhandled => .pure fun e he => ?_
  obtain ⟨e', he', hkept⟩ := List.mem_filterMap.mp he
  obtain ⟨handled', hmem, rfl⟩ := List.mem_filterMap.mp he'
  split at hkept
  · cases hkept
  · cases hkept
    exact ⟨(hhandled _ hmem e' rfl).request, (hhandled _ hmem e' rfl).responses⟩

omit hcalls

/-- **Every endpoint of a file has bodies in step.** -/
theorem bodiesInStep_routesOf (bundle : Bundle) (file : File) :
    ∀ r ∈ (routesOf bundle file).registrations, BodiesInStep r.endpoint := by
  intro r hr
  obtain ⟨e, he, rfl⟩ := List.mem_map.mp hr
  obtain ⟨endpoints, hmem, he⟩ := List.mem_flatten.mp he
  have hcalls : ∀ call : Call,
      Yields Session.Sound Resolved (call.run (visibleDefinitions bundle file)) :=
    Shape.yields_run (Shape.declaresResolved_declarations _)
  have hyields := Yields.mapM
    ((Site.root file.root).findAll ["class_declaration", "abstract_class_declaration"])
    fun cls _ => yields_endpointsOf hcalls file.path.text cls
  exact (hyields {} fun _ he => absurd he List.not_mem_nil).1 endpoints hmem e he

end Convention.Controller

open Convention.Controller (parametersOf routesOf BodiesInStep)

/-- **The required list keeps in step with the properties**, at every node of a shape: of every
    expression of schema builders; of every name and every type resolved in a session, after whatever
    calls and within whatever declarations, where the shape is not marked optional either; of the body
    that a handler's parameters make up in such a session, and of all bodies in the routes of a file. -/
theorem required_inStep :
    (∀ (definitions : Dict Node) (levels : Nat) (busy : List String) (node : Option Node),
      InStep (Shape.Builder.shapeWithin definitions levels busy node)) ∧
    (∀ (nodes : Dict Node) (calls : List Call) (busy : List String),
      let definitions := Shape.declarations nodes
      let session := { Session.after definitions calls with busy := busy }
      (∀ call : Call, Resolved ((call.run definitions).run session).1) ∧
      (∀ params b, ((parametersOf definitions params).run session).1.body = some b → InStep b)) ∧
    (∀ (bundle : Bundle) (file : File),
      ∀ r ∈ (routesOf bundle file).registrations, BodiesInStep r.endpoint) := by
  refine ⟨Shape.Builder.inStep_shapeWithin, fun nodes calls busy => ?_,
    Convention.Controller.bodiesInStep_routesOf⟩
  have hdefs := Shape.declaresResolved_declarations nodes
  have hsound : Session.Sound { Session.after (Shape.declarations nodes) calls with busy := busy } :=
    Shape.sound_after hdefs calls
  refine ⟨fun call => ?_, fun params => ?_⟩
  · exact (Shape.yields_run hdefs call _ hsound).1
  · exact (Convention.Controller.yields_parametersOf (Shape.yields_run hdefs) params _ hsound).1

/-- `name?: string`, as a property of an object type. -/
def nameSignature : Node :=
  ⟨"property_signature", true, 15, 28, "", "name?: string",
    [⟨"property_identifier", true, 15, 19, "name", "name", []⟩, ⟨"?", false, 19, 20, "", "?", []⟩,
      ⟨"type_annotation", true, 20, 28, "type", ": string",
        [⟨"predefined_type", true, 22, 28, "", "string", []⟩]⟩]⟩

/-- `type User = { name?: string }`. -/
def userDeclaration : Node :=
  ⟨"type_alias_declaration", true, 0, 30, "", "type User = \x7b name?: string \x7d",
    [⟨"type_identifier", true, 5, 9, "name", "User", []⟩,
      ⟨"object_type", true, 12, 30, "value", "\x7b name?: string \x7d", [nameSignature]⟩]⟩

/-- `@Body('user') user: User`, as a parameter of a handler. -/
def userParameter : Node :=
  ⟨"required_parameter", true, 0, 24, "", "@Body('user') user: User",
    [⟨"decorator", true, 0, 13, "", "@Body('user')",
      [⟨"call_expression", true, 1, 13, "", "Body('user')",
        [⟨"identifier", true, 1, 5, "function", "Body", []⟩,
          ⟨"arguments", true, 5, 13, "arguments", "('user')",
            [⟨"string", true, 6, 12, "", "'user'", []⟩]⟩]⟩]⟩,
      ⟨"identifier", true, 14, 18, "pattern", "user", []⟩,
      ⟨"type_annotation", true, 18, 24, "type", ": User",
        [⟨"type_identifier", true, 20, 24, "", "User", []⟩]⟩]⟩

/-- A body made of one part, whose type was resolved in a call before. -/
theorem required_inStep_user :
    let definitions := Shape.declarations [("User", userDeclaration)]
    let session := { Session.after definitions [.named 9 "User"] with busy := [] }
    ∃ b, ((parametersOf definitions [Site.root userParameter]).run session).1.body = some b ∧
      Dict.keys b.properties = ["user"] ∧ b.required = ["user"] ∧ InStep b := by
  intro definitions session
  have hbody : (((parametersOf definitions [Site.root userParameter]).run session).1.body.map fun b =>
      (Dict.keys b.properties, b.required)) = some (["user"], ["user"]) := by decide +kernel
  obtain ⟨b, hb, hparts⟩ := Option.map_eq_some_iff.mp hbody
  obtain ⟨hkeys, hrequired⟩ := Prod.mk.inj hparts
  exact ⟨b, hb, hkeys, hrequired,
    (required_inStep.2.1 [("User", userDeclaration)] [.named 9 "User"] []).2 _ b hb⟩

end RouteAtlas
