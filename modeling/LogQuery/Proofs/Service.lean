import LogQuery.Service
import LogQuery.Proofs.Favorites
import LogQuery.Proofs.Lookup
import LogQuery.Proofs.Suggestion
/-!
# Runs of the service

Only a request that puts values changes the favorites, and only a lookup of label
values and a put read them (`effect`).  So after any history the favorites of a
pair are the union of what was put to it (`get_after`), and two histories that put
the same values are answered alike from then on (`run_congr`).
-/

namespace LogQuery.Service

open Lookup

/-! ### Documents -/

def Request.route? (r : Request) : Option Route :=
  (Service.route? (Text.Percent.decode r.path)).filter fun route => r.method = route.method

def Body.order? {α : Type} : Body α → Option α
  | .order a => some a
  | .refused _ => none

theorem Body.eq_order {α : Type} {body : Body α} {a : α} (h : body.order? = some a) :
    body = .order a := by
  cases body with
  | order b => exact congrArg Body.order (Option.some.inj h)
  | refused response => cases h

/-- The values that a request puts, and the pair it puts them to. -/
def Request.put? (r : Request) : Option (FavoriteKey × List String) :=
  match r.route? with
  | some (.favorites datasource key) =>
    (readBody FavoriteOrder.codec r.body).order?.map fun o => ((datasource, key), o.values)
  | _ => none

/-- The lookup of label values that a request asks for. -/
def Request.lookup? (r : Request) : Option LabelLookup :=
  match r.route? with
  | some .labels => (readBody LabelLookup.codec r.body).order?
  | _ => none

/-! ### One step -/

section Step

variable {α : Type} {codec : Schema.Codec α} {c : Config} {store : Store} {r : Request}

theorem withBody_order {a : α} (h : readBody codec r.body = .order a) (s : Favorites)
    (handle : α → Favorites × Reaction) : withBody codec r s handle = handle a := by
  rw [withBody, h]

theorem withBody_refused {response : Response} (h : readBody codec r.body = .refused response)
    (s : Favorites) (handle : α → Favorites × Reaction) :
    withBody codec r s handle = (s, silent response) := by
  rw [withBody, h]

/-- A handler that leaves the favorites alone, and does not read them. -/
theorem withBody_keep (codec : Schema.Codec α) (r : Request) (handle : α → Reaction) :
    ∃ reaction, ∀ s, withBody codec r s (fun a => (s, handle a)) = (s, reaction) := by
  cases hbody : readBody codec r.body with
  | order a => exact ⟨_, fun s => withBody_order hbody s _⟩
  | refused response => exact ⟨_, fun s => withBody_refused hbody s _⟩

theorem step_of_route {route : Route} (h : r.route? = some route) (s : Favorites) :
    step c store s r = dispatch c store s r route := by
  obtain ⟨hroute, hmethod⟩ := Option.filter_eq_some_iff.mp h
  rw [step, hroute]
  exact if_pos (of_decide_eq_true hmethod)

theorem step_of_route_none (h : r.route? = none) :
    ∃ reaction, ∀ s, step c store s r = (s, reaction) := by
  cases hroute : Service.route? (Text.Percent.decode r.path) with
  | none => exact ⟨_, fun s => by rw [step, hroute]⟩
  | some route =>
    have hmethod : ¬ r.method = route.method := by
      intro hmethod
      simp [Request.route?, hroute, hmethod] at h
    exact ⟨_, fun s => by rw [step, hroute]; exact if_neg hmethod⟩

/-- What a request has to do with the favorites. -/
inductive Effect (c : Config) (store : Store) (r : Request) : Prop
  | put (k : FavoriteKey) (values : List String) (hput : r.put? = some (k, values))
    (hlookup : r.lookup? = none)
    (hstep : ∀ s, step c store s r = (s.add k values,
      silent (.answer 200 (favoritesBody k.1 k.2 ((s.add k values).get k)))))
  | lookup (l : LabelLookup) (hput : r.put? = none) (hlookup : r.lookup? = some l)
    (hstep : ∀ s, step c store s r = (s, labels c s store l))
  /-- It neither changes nor reads them. -/
  | neither (reaction : Reaction) (hput : r.put? = none) (hlookup : r.lookup? = none)
    (hstep : ∀ s, step c store s r = (s, reaction))

/-- A route that is handled without the favorites. -/
theorem Effect.of_dispatch {route : Route} (hroute : r.route? = some route)
    (hput : r.put? = none) (hlookup : r.lookup? = none)
    (h : ∃ reaction, ∀ s, dispatch c store s r route = (s, reaction)) : Effect c store r := by
  obtain ⟨reaction, h⟩ := h
  exact .neither reaction hput hlookup fun s => (step_of_route hroute s).trans (h s)

theorem effect (c : Config) (store : Store) (r : Request) : Effect c store r := by
  cases hroute : r.route? with
  | none =>
    obtain ⟨reaction, hstep⟩ := step_of_route_none hroute
    exact .neither reaction (by rw [Request.put?, hroute]) (by rw [Request.lookup?, hroute]) hstep
  | some route =>
    cases route with
    | root | health =>
      exact .of_dispatch hroute (by rw [Request.put?, hroute]) (by rw [Request.lookup?, hroute])
        ⟨_, fun s => rfl⟩
    | compile | fields =>
      exact .of_dispatch hroute (by rw [Request.put?, hroute]) (by rw [Request.lookup?, hroute])
        (withBody_keep _ r _)
    | labels =>
      have hput : r.put? = none := by rw [Request.put?, hroute]
      cases hbody : readBody LabelLookup.codec r.body with
      | order l =>
        refine .lookup l hput (by rw [Request.lookup?, hroute, hbody, Body.order?]) fun s => ?_
        rw [step_of_route hroute, dispatch, withBody_order hbody]
      | refused response =>
        exact .of_dispatch hroute hput (by rw [Request.lookup?, hroute, hbody, Body.order?])
          ⟨_, fun s => withBody_refused hbody s _⟩
    | favorites datasource key =>
      have hlookup : r.lookup? = none := by rw [Request.lookup?, hroute]
      cases hbody : readBody FavoriteOrder.codec r.body with
      | order o =>
        refine .put (datasource, key) o.values ?_ hlookup fun s => ?_
        · rw [Request.put?, hroute, hbody]
          rfl
        · rw [step_of_route hroute, dispatch, withBody_order hbody]
      | refused response =>
        refine .of_dispatch hroute ?_ hlookup ⟨_, fun s => withBody_refused hbody s _⟩
        rw [Request.put?, hroute, hbody]
        rfl

end Step

/-! ### Histories -/

/-- A request, and the store its lookups are answered by. -/
structure Exchange where
  store : Store
  request : Request

variable {c : Config} {k : FavoriteKey}

/-- The favorites after a history. -/
def after (c : Config) : Favorites → List Exchange → Favorites
  | s, [] => s
  | s, x :: xs => after c (step c x.store s x.request).1 xs

/-- The reactions to requests that come one after the other. -/
def run (c : Config) : Favorites → List Exchange → List Reaction
  | _, [] => []
  | s, x :: xs => (step c x.store s x.request).2 :: run c (step c x.store s x.request).1 xs

theorem run_append (s : Favorites) (xs ys : List Exchange) :
    run c s (xs ++ ys) = run c s xs ++ run c (after c s xs) ys := by
  induction xs generalizing s with
  | nil => rfl
  | cons x xs ih => exact congrArg _ (ih _)

/-- The values that a request puts to the pair. -/
def Request.putTo (k : FavoriteKey) (r : Request) : List String :=
  match r.put? with
  | some (p, values) => if p = k then values else []
  | none => []

/-- The values that were put to the pair, in the order of the history. -/
def putTo (k : FavoriteKey) (history : List Exchange) : List String :=
  history.flatMap fun x => x.request.putTo k

theorem get_step (c : Config) (store : Store) (s : Favorites) (r : Request) (k : FavoriteKey) :
    (step c store s r).1.get k = Favorites.insertAll (r.putTo k) (s.get k) := by
  rw [Request.putTo]
  cases effect c store r with
  | put p values hput _ hstep =>
    rw [hstep, hput, Favorites.get_add]
    by_cases h : p = k
    · simp [h]
    · simp [h, Ne.symm h, Favorites.insertAll]
  | lookup l hput _ hstep =>
    rw [hstep, hput]
    rfl
  | neither reaction hput _ hstep =>
    rw [hstep, hput]
    rfl

/-- The favorites of no pair differ. -/
def Agree (s t : Favorites) : Prop := ∀ k, s.get k = t.get k

theorem Agree.step {s t : Favorites} (h : Agree s t) (store : Store) (r : Request) :
    (step c store s r).2 = (step c store t r).2
      ∧ Agree (Service.step c store s r).1 (Service.step c store t r).1 := by
  constructor
  · cases effect c store r with
    | put p values _ _ hstep =>
      rw [hstep, hstep, Favorites.get_add, Favorites.get_add, if_pos rfl, if_pos rfl, h p]
    | lookup l _ _ hstep =>
      have hsuggestions : labelSuggestions s l = labelSuggestions t l := by
        funext values
        rw [labelSuggestions, labelSuggestions, h]
      rw [hstep, hstep, labels, labels, hsuggestions]
    | neither reaction _ _ hstep => rw [hstep, hstep]
  · intro k
    rw [get_step, get_step, h]

theorem Agree.run {s t : Favorites} (h : Agree s t) (xs : List Exchange) :
    run c s xs = run c t xs := by
  induction xs generalizing s t with
  | nil => rfl
  | cons x xs ih =>
    obtain ⟨hreaction, hagree⟩ := h.step (c := c) x.store x.request
    rw [Service.run, Service.run, hreaction, ih hagree]

/-- The lookup that is made for the values of a label. -/
def labelInquiry (l : LabelLookup) : Inquiry := .label l.filter.key (scope l)

/-- The texts that no filter on the key of the lookup selects, favored ones first. -/
def offered (l : LabelLookup) (favored texts : List String) : List String :=
  Suggestion.favoredFirst favored (Suggestion.unselected l.filters l.filter.key texts)

theorem suggestionsBody_eq (ss : List Suggestion) :
    suggestionsBody ss = .object [
      ("replace", .bool true),
      ("values", .array (ss.map fun s =>
        .object [("text", .string s.text), ("value", s.value.elim .null .string)]))] := by
  have hwrite : Suggestion.codec.write {} = fun s : Suggestion =>
      Json.object [("text", .string s.text), ("value", s.value.elim .null .string)] := by
    funext ⟨text, value⟩
    cases value <;> rfl
  rw [suggestionsBody, hwrite]

theorem suggest_requests (span : Span) (found : Outcome (List Json))
    (warnings : List Json → List Log.Record)
    (suggestions : List Json → Except Fault (List Suggestion)) :
    (suggest span found warnings suggestions).trail.requests = found.trail.requests := by
  unfold suggest
  split <;> simp [Trail.append]

section Suggest

variable {span : Span} {found : Outcome (List Json)} {warnings : List Json → List Log.Record}
  {suggestions : List Json → Except Fault (List Suggestion)} {values : List Json}

theorem suggest_fault {fault : Fault} (h : found.result = .error fault) :
    (suggest span found warnings suggestions).response = .fault fault := by
  rw [suggest, h]

theorem suggest_answer {ss : List Suggestion} (h : found.result = .ok values)
    (hss : suggestions values = .ok ss) :
    (suggest span found warnings suggestions).response = .answer 200 (suggestionsBody ss) := by
  rw [suggest, h]
  simp only [hss]

end Suggest

theorem labelSuggestions_texts (s : Favorites) (l : LabelLookup) (texts : List String) :
    labelSuggestions s l (texts.map .string)
      = .ok ((offered l (s.get (l.datasource, l.filter.key)) texts).map Suggestion.ofPlain) := by
  rw [labelSuggestions, Suggestion.ofLabel_texts]
  exact Suggestion.plains_texts _

/-- The status of a response; a fault is an internal error. -/
def Response.status : Response → Nat
  | .answer status _ => status
  | .rejected _ | .notJson => 422
  | .fault _ => 500

end LogQuery.Service
