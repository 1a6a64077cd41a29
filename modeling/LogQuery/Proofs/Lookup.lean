import LogQuery.Lookup
import Mathlib.Data.List.Basic
/-!
# Lookups ask once

A lookup whose address and window can be written asks the store once, and finds
what the reply holds (`Inquiry.run_of_askable`); any other asks nothing.  The
address can be written if the client does not refuse it, and the window if its
bounds can be placed (`exists_window_iff`).  A client that refuses no more than it
must takes any key that is not too long and has no control character
(`refusal?_path`).
-/

namespace LogQuery.Lookup

open Time (Timestamp)

/-! ### Replies -/

/-- The store answers with a success and a JSON object. -/
inductive Delivers : Reply → Json.Members → Prop
  | object {status : Nat} {ms : Json.Members} (hstatus : 200 ≤ status ∧ status < 300) :
      Delivers (.answered status (.ok (.object ms))) ms

/-- The list that the store answers with. -/
def Carries (k : Kind) (reply : Reply) (values : List Json) : Prop :=
  ∃ ms, Delivers reply ms ∧ Json.Members.find? ms k.member = some (.array values)

/-- The store answers with an object whose member for the values is missing or no list. -/
def Unlisted (k : Kind) (reply : Reply) : Prop :=
  ∃ ms, Delivers reply ms ∧ ∀ values, Json.Members.find? ms k.member ≠ some (.array values)

/-- The store answers with a success, and there is no room on the stack to read the body. -/
inductive Exhausts : Reply → Prop
  | body {status : Nat} {isList : Bool} (hstatus : 200 ≤ status ∧ status < 300) :
      Exhausts (.answered status (.error (.tooDeep isList)))

/-- The texts of a reply: those in its list, and none where there is no list. -/
inductive Lists (k : Kind) (reply : Reply) : List String → Prop
  | listed {texts : List String} (h : Carries k reply (texts.map .string)) : Lists k reply texts
  | nothing (h : ∀ values, ¬ Carries k reply values) (hread : ¬ Exhausts reply) : Lists k reply []

/-- What a reply is taken for, with what it is known by. -/
inductive TakenFor : Reply → Except Fault Finding → Prop
  | transport (message : String) : TakenFor (.failed message) (.ok (.failure (.transport message)))
  | unsupported {status : Nat} {body : Json.Reading}
      (h : status = 404 ∨ status = 405 ∨ status = 501) :
      TakenFor (.answered status body) (.ok (.failure (.unsupported status)))
  | refused {status : Nat} {body : Json.Reading}
      (h : ¬ (status = 404 ∨ status = 405 ∨ status = 501))
      (hstatus : ¬ (200 ≤ status ∧ status < 300)) :
      TakenFor (.answered status body) (.ok (.failure (.refused status)))
  | notJson {status : Nat} {e : Json.ReadError} (hstatus : 200 ≤ status ∧ status < 300)
      (he : ∀ isList, e ≠ .tooDeep isList) :
      TakenFor (.answered status (.error e)) (.ok (.failure .notJson))
  | notObject {status : Nat} {v : Json} (hstatus : 200 ≤ status ∧ status < 300)
      (hv : ∀ ms, v ≠ .object ms) : TakenFor (.answered status (.ok v)) (.ok (.failure .notObject))
  | object {reply : Reply} {ms : Json.Members} (h : Delivers reply ms) :
      TakenFor reply (.ok (.object ms))
  | tooDeep {status : Nat} {isList : Bool} (hstatus : 200 ≤ status ∧ status < 300) :
      TakenFor (.answered status (.error (.tooDeep isList))) (.error (.tooDeep isList))

theorem takenFor_examine (reply : Reply) : TakenFor reply (examine reply) := by
  cases reply with
  | failed message => exact .transport message
  | answered status body =>
    have hunsupported : isUnsupported status = true
        ↔ status = 404 ∨ status = 405 ∨ status = 501 := by
      rw [isUnsupported, decide_eq_true_iff, List.mem_cons, List.mem_cons, List.mem_singleton]
    have hsuccess : isSuccess status = true ↔ 200 ≤ status ∧ status < 300 := by
      rw [isSuccess, Bool.and_eq_true, decide_eq_true_iff, decide_eq_true_iff]
    rw [examine]
    split_ifs with h hfails
    · exact .unsupported (hunsupported.mp h)
    · rw [Bool.not_eq_true'] at hfails
      exact .refused (mt hunsupported.mpr h) (mt hsuccess.mpr (Bool.eq_false_iff.mp hfails))
    · have hstatus := hsuccess.mp (by simpa using hfails)
      cases body with
      | error e => cases e with
        | tooDeep isList => exact .tooDeep hstatus
        | malformed | unbounded => exact .notJson hstatus nofun
      | ok v => cases v with
        | object ms => exact .object (.object hstatus)
        | null | bool | number | string | unpaired | array => exact .notObject hstatus nofun

section Reply

variable {k : Kind} {reply : Reply} {values : List Json}

/-- **A reply is taken for an answer** if it delivers an object. -/
theorem examine_eq_object {ms : Json.Members} :
    examine reply = .ok (.object ms) ↔ Delivers reply ms := by
  have htaken := takenFor_examine reply
  constructor
  · intro h
    rw [h] at htaken
    cases htaken with
    | object hdelivers => exact hdelivers
  · rintro ⟨hstatus⟩
    generalize examine _ = taken at htaken
    cases htaken with
    | unsupported h => omega
    | refused h hfails => exact absurd hstatus hfails
    | notObject _ hv => exact absurd rfl (hv _)
    | object hdelivers =>
      cases hdelivers
      rfl

/-- **A reply is a fault** if there is no room on the stack to read it. -/
theorem examine_eq_error : (∃ fault, examine reply = .error fault) ↔ Exhausts reply := by
  have htaken := takenFor_examine reply
  constructor
  · rintro ⟨fault, h⟩
    rw [h] at htaken
    cases htaken with
    | tooDeep hstatus => exact .body hstatus
  · rintro ⟨hstatus⟩
    generalize examine _ = taken at htaken
    cases htaken with
    | unsupported h => omega
    | refused h hfails => exact absurd hstatus hfails
    | notJson _ he => exact absurd rfl (he _)
    | object hdelivers => cases hdelivers
    | tooDeep _ => exact ⟨_, rfl⟩

theorem Delivers.unique {ms ms' : Json.Members} (h : Delivers reply ms)
    (h' : Delivers reply ms') : ms = ms' := by
  cases h
  cases h'
  rfl

theorem Carries.not_exhausts (h : Carries k reply values) : ¬ Exhausts reply := by
  obtain ⟨ms, hdelivers, -⟩ := h
  rintro ⟨-⟩
  cases hdelivers

theorem Unlisted.not_exhausts (h : Unlisted k reply) : ¬ Exhausts reply := by
  obtain ⟨ms, hdelivers, -⟩ := h
  rintro ⟨-⟩
  cases hdelivers

theorem Unlisted.not_carries (h : Unlisted k reply) (values : List Json) :
    ¬ Carries k reply values := by
  obtain ⟨ms, hdelivers, hlist⟩ := h
  rintro ⟨ms', hdelivers', hlist'⟩
  rw [hdelivers'.unique hdelivers] at hlist'
  exact hlist values hlist'

/-! ### What is found -/

/-- The values that a lookup finds in a reply. -/
def found (k : Kind) (reply : Reply) : Except Fault (List Json) :=
  (examine reply).map (Finding.values k)

theorem valuesOf_unlisted {ms : Json.Members}
    (h : ∀ values, Json.Members.find? ms k.member ≠ some (.array values)) :
    valuesOf k ms = [] := by
  unfold valuesOf
  split
  · rename_i values hvalues
    exact absurd hvalues (h values)
  · rfl

theorem found_of_carries (h : Carries k reply values) : found k reply = .ok values := by
  obtain ⟨ms, hdelivers, hlist⟩ := h
  have hvalues : valuesOf k ms = values := by simp only [valuesOf, hlist]
  rw [found, examine_eq_object.mpr hdelivers]
  exact congrArg Except.ok hvalues

/-- Where there is no list nothing is found. -/
theorem found_of_not_carries (h : ∀ values, ¬ Carries k reply values) (hread : ¬ Exhausts reply) :
    found k reply = .ok [] := by
  cases hexamine : examine reply with
  | error fault => exact absurd (examine_eq_error.mp ⟨fault, hexamine⟩) hread
  | ok finding =>
    rw [found, hexamine]
    cases finding with
    | failure f => rfl
    | object ms =>
      have hdelivers := examine_eq_object.mp hexamine
      have hunlisted : valuesOf k ms = [] :=
        valuesOf_unlisted fun values hlist => h values ⟨ms, hdelivers, hlist⟩
      exact congrArg Except.ok hunlisted

theorem found_of_exhausts (h : Exhausts reply) : ∃ fault, found k reply = .error fault := by
  obtain ⟨fault, hexamine⟩ := examine_eq_error.mpr h
  rw [found, hexamine]
  exact ⟨fault, rfl⟩

theorem found_of_lists {texts : List String} (h : Lists k reply texts) :
    found k reply = .ok (texts.map .string) := by
  cases h with
  | listed h => exact found_of_carries h
  | nothing h hread => exact found_of_not_carries h hread

end Reply

/-! ### What can be asked -/

theorem control?_eq_none {path : String} :
    control? path = none ↔ ∀ c ∈ path.toList, isControl c = false := by
  rw [control?, Option.map_eq_none_iff, List.find?_eq_none]
  constructor
  · intro h c hc
    obtain ⟨i, hi, rfl⟩ := List.mem_iff_getElem.mp hc
    have hmem : (path.toList[i], i) ∈ path.toList.zipIdx :=
      List.mem_zipIdx_iff_getElem?.mpr (List.getElem?_eq_getElem hi)
    exact Bool.eq_false_iff.mpr (h _ hmem)
  · rintro h ⟨c, i⟩ hmem
    exact Bool.eq_false_iff.mp (h c (List.fst_mem_of_mem_zipIdx hmem))

/-- Between texts without control characters it is the key alone that can have one. -/
theorem control?_append_append {pre post : String} (hpre : control? pre = none)
    (hpost : control? post = none) (key : String) :
    control? (pre ++ key ++ post) = none ↔ ∀ c ∈ key.toList, isControl c = false := by
  rw [control?_eq_none] at hpre hpost ⊢
  rw [String.toList_append, String.toList_append, List.forall_mem_append, List.forall_mem_append]
  exact ⟨fun h => h.1.2, fun h => ⟨⟨hpre, h⟩, hpost⟩⟩

/-- **The keys that can be asked for:** those that are not too long and have no control
character. -/
theorem refusal?_path {k : Kind} {key : String} :
    refusal? (k.path key) = none
      ↔ (k.path key).length ≤ longestAddress ∧ ∀ c ∈ key.toList, isControl c = false := by
  have hcontrol : control? (k.path key) = none ↔ ∀ c ∈ key.toList, isControl c = false := by
    cases k with
    | label => exact control?_append_append (by decide) (by decide) key
    | field => exact control?_append_append (by decide) (by decide) key
  rw [refusal?, ← hcontrol]
  split_ifs with hlong
  · exact iff_of_false nofun fun h => absurd h.1 (Nat.not_le.mpr hlong)
  · exact ⟨fun h => ⟨Nat.not_lt.mp hlong, h⟩, fun h => h.2⟩

/-- The bounds of a window can be placed in time. The local clock, by which a bound without an
offset is placed, shows UTC. -/
def PlacedByUtcClock (start stop : Option Timestamp) : Prop :=
  (∀ t ∈ start, t.isPlaced = true) ∧ ∀ t ∈ stop, t.isPlaced = true

theorem exists_bound_iff (name : String) (t? : Option Timestamp) :
    (∃ bounds, bound name t? = .ok bounds) ↔ ∀ t ∈ t?, t.isPlaced = true := by
  cases t? with
  | none => simp [bound]
  | some t => cases h : t.isPlaced <;> simp [bound, Timestamp.nanoseconds?, h]

theorem exists_window_iff {start stop : Option Timestamp} :
    (∃ bounds, window start stop = .ok bounds) ↔ PlacedByUtcClock start stop := by
  rw [PlacedByUtcClock, ← exists_bound_iff "start" start, ← exists_bound_iff "end" stop]
  cases hstart : bound "start" start with
  | error fault => simp [window, hstart, bind, Except.bind]
  | ok first =>
    cases hstop : bound "end" stop with
    | error fault => simp [window, hstart, hstop, bind, Except.bind]
    | ok last => simp [window, hstart, hstop, bind, Except.bind, pure, Except.pure]

/-! ### Asking -/

section Ask

variable {store : Store} {k : Kind} {key query : String} {params : List (String × String)}

theorem ask_of_accepted (h : store.refuses (k.path key) params = none) (a : Address)
    (query : String) :
    (ask store a k key query params).trail.requests = [request a (k.path key) params]
      ∧ (ask store a k key query params).result
        = found k (store.reply (request a (k.path key) params)) := by
  cases hread : examine (store.reply (request a (k.path key) params)) with
  | ok finding => simp only [ask, found, h, hread, Except.map, and_self]
  | error fault => simp only [ask, found, h, hread, Except.map, and_self]

theorem ask_of_refused {fault : Fault} (h : store.refuses (k.path key) params = some fault)
    (a : Address) (query : String) :
    (ask store a k key query params).trail.requests = []
      ∧ (ask store a k key query params).result = .error fault := by
  simp only [ask, h, and_self]

end Ask

/-- A lookup with what its caller gives: the matchers that narrow it, or an
expression and a limit. -/
inductive Inquiry
  | label (key : String) (ms : List Matcher)
  | field (key expr : String) (limit : Int)

namespace Inquiry

def kind : Inquiry → Kind
  | label _ _ => .label
  | field _ _ _ => .field

def key : Inquiry → String
  | label key _ => key
  | field key _ _ => key

def query : Inquiry → String
  | label _ ms => Selector.ofMatchers ms
  | field _ expr _ => expr

/-- The parameters without those of the window. -/
def params (i : Inquiry) : List (String × String) :=
  match i with
  | label _ _ => if i.query = "" then [] else [("query", i.query)]
  | field _ _ limit => [("query", i.query), ("limit", toString limit)]

def run (store : Store) (a : Address) (start stop : Option Timestamp) :
    Inquiry → Outcome (List Json)
  | label key ms => labelValues store a key ms start stop
  | field key expr limit => fieldValues store a key expr limit start stop

/-- The client writes the request. -/
def AcceptedBy (store : Store) (start stop : Option Timestamp) (i : Inquiry) : Prop :=
  ∀ bounds, window start stop = .ok bounds →
    store.refuses (i.kind.path i.key) (i.params ++ bounds) = none

/-- The window can be written, and the client writes the request. -/
structure Askable (store : Store) (start stop : Option Timestamp) (i : Inquiry) : Prop where
  placed : PlacedByUtcClock start stop
  accepted : i.AcceptedBy store start stop

variable {store : Store} {start stop : Option Timestamp} {i : Inquiry}

theorem run_eq_fetch (store : Store) (a : Address) (start stop : Option Timestamp) (i : Inquiry) :
    i.run store a start stop = fetch store a i.kind i.key i.query i.params start stop := by
  cases i with
  | label key ms => rfl
  | field key expr limit => rfl

/-- A lookup that can be asked is one question. -/
theorem exists_run_eq_ask (h : i.Askable store start stop) (a : Address) :
    ∃ params, i.run store a start stop = ask store a i.kind i.key i.query params
      ∧ store.refuses (i.kind.path i.key) params = none := by
  obtain ⟨bounds, hbounds⟩ := exists_window_iff.mpr h.placed
  refine ⟨i.params ++ bounds, ?_, h.accepted bounds hbounds⟩
  rw [run_eq_fetch, fetch, hbounds]

theorem run_of_askable (h : i.Askable store start stop) (a : Address) :
    ∃ q, (i.run store a start stop).trail.requests = [q]
      ∧ (i.run store a start stop).result = found i.kind (store.reply q) := by
  obtain ⟨params, hrun, haccepted⟩ := exists_run_eq_ask h a
  rw [hrun]
  exact ⟨_, ask_of_accepted haccepted a i.query⟩

theorem run_of_not_askable (h : ¬ i.Askable store start stop) (a : Address) :
    (i.run store a start stop).trail.requests = []
      ∧ ∃ fault, (i.run store a start stop).result = .error fault := by
  rw [run_eq_fetch]
  cases hwindow : window start stop with
  | error fault =>
    rw [fetch, hwindow]
    exact ⟨rfl, fault, rfl⟩
  | ok bounds =>
    cases haddress : store.refuses (i.kind.path i.key) (i.params ++ bounds) with
    | none =>
      refine absurd ⟨exists_window_iff.mp ⟨bounds, hwindow⟩, fun bounds' hbounds => ?_⟩ h
      rw [hwindow] at hbounds
      cases hbounds
      exact haddress
    | some fault =>
      rw [fetch, hwindow]
      obtain ⟨hrequests, hresult⟩ := ask_of_refused haddress a i.query
      exact ⟨hrequests, fault, hresult⟩

end Inquiry

end LogQuery.Lookup
