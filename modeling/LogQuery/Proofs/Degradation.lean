import LogQuery.Proofs.Lookup
/-!
# Lookups that degrade

A lookup to which the store gives no list finds nothing, and a record is due that
says so: a warning where the store does not know the endpoint, an error in every
other case.  `Inquiry.keepsPolicy_iff` says when this policy is kept.  Two replies
break it, an object that has no list where one is expected, and a body that takes
all of the stack.  Of the first nothing is found and nothing is reported, and the
second is a fault.
-/

namespace LogQuery.Lookup

open Time (Timestamp)

/-! ### Reports -/

/-- The level at which it is due to be reported that a reply has no list. -/
def dueLevel : Reply → Log.Level
  | .failed _ => .error
  | .answered status _ =>
    if status = 404 ∨ status = 405 ∨ status = 501 then .warning else .error

/-- **Every failure is reported at the level that is due.** -/
theorem level_record {reply : Reply} {f : Failure} (h : examine reply = .ok (.failure f))
    (k : Kind) (key : String) : (f.record k key).level = dueLevel reply := by
  have htaken := takenFor_examine reply
  rw [h] at htaken
  cases htaken with
  | transport message => rfl
  | unsupported hstatus => exact (if_pos hstatus).symm
  | refused hstatus _ => exact (if_neg hstatus).symm
  | notJson hstatus _ => exact (if_neg (by omega)).symm
  | notObject hstatus _ => exact (if_neg (by omega)).symm

/-- The records that are more than information. -/
def Trail.alarms (t : Trail) : List Log.Record := t.records.filter fun r => r.level ≠ .info

/-- What is reported of a reply: the failure, if it is one. -/
def reported (k : Kind) (key : String) (reply : Reply) : List Log.Record :=
  match examine reply with
  | .ok finding => finding.records k key
  | .error _ => []

section Reply

variable {k : Kind} {reply : Reply} {values : List Json}

theorem reported_of_delivers {ms : Json.Members} (h : Delivers reply ms) (key : String) :
    reported k key reply = [] := by
  rw [reported, examine_eq_object.mpr h]
  rfl

theorem reported_of_exhausts (h : Exhausts reply) (key : String) : reported k key reply = [] := by
  obtain ⟨fault, hexamine⟩ := examine_eq_error.mpr h
  rw [reported, hexamine]

/-- A reply without an object that can be read is a failure. -/
theorem levels_reported (hcarries : ∀ values, ¬ Carries k reply values)
    (hunlisted : ¬ Unlisted k reply) (hread : ¬ Exhausts reply) (key : String) :
    (reported k key reply).map Log.Record.level = [dueLevel reply] := by
  cases hexamine : examine reply with
  | error fault => exact absurd (examine_eq_error.mp ⟨fault, hexamine⟩) hread
  | ok finding =>
    cases finding with
    | object ms =>
      have hdelivers := examine_eq_object.mp hexamine
      exact absurd ⟨ms, hdelivers, fun values hlist => hcarries values ⟨ms, hdelivers, hlist⟩⟩
        hunlisted
    | failure f =>
      rw [reported, hexamine]
      exact congrArg (· :: []) (level_record hexamine k key)

end Reply

theorem ask_alarms {store : Store} {k : Kind} {key : String} {params : List (String × String)}
    (h : store.refuses (k.path key) params = none) (a : Address) (query : String) :
    (ask store a k key query params).trail.alarms
      = reported k key (store.reply (request a (k.path key) params)) := by
  cases hread : examine (store.reply (request a (k.path key) params)) with
  | error fault => simp [Trail.alarms, ask, reported, h, hread]
  | ok finding =>
    cases finding with
    | object ms => simp [Trail.alarms, ask, reported, Finding.records, h, hread]
    | failure f =>
      have hlevel : (f.record k key).level ≠ .info := by cases f <;> exact Log.Level.noConfusion
      simp [Trail.alarms, ask, reported, Finding.records, h, hread, hlevel]

/-! ### The policy -/

/-- What is promised of a lookup that the store answers by `reply`: the list as it
is and no alarm, or nothing and one alarm. -/
structure KeepsPolicy (k : Kind) (reply : Reply) (o : Outcome (List Json)) : Prop where
  listed : ∀ values, Carries k reply values → o.result = .ok values ∧ o.trail.alarms = []
  degraded : (∀ values, ¬ Carries k reply values) →
    o.result = .ok [] ∧ o.trail.alarms.map Log.Record.level = [dueLevel reply]

namespace Inquiry

variable {store : Store} {start stop : Option Timestamp} {i : Inquiry}

/-- One request is sent, and its reply decides what is found and what is reported. -/
theorem run_of_reply (h : i.Askable store start stop) (a : Address) :
    ∃ q, (i.run store a start stop).trail.requests = [q]
      ∧ (i.run store a start stop).result = found i.kind (store.reply q)
      ∧ (i.run store a start stop).trail.alarms = reported i.kind i.key (store.reply q) := by
  obtain ⟨params, hrun, haccepted⟩ := exists_run_eq_ask h a
  rw [hrun]
  refine ⟨request a (i.kind.path i.key) params, and_assoc.mp ?_⟩
  exact ⟨ask_of_accepted haccepted a i.query, ask_alarms haccepted a i.query⟩

/-- **When a lookup degrades as it should.**  One that can be asked is asked once,
and the policy is kept unless the reply is an object that has no list where the
values are expected, or takes all of the stack to be read.  The first is passed
over in silence, and the second leaves the lookup as a fault. -/
theorem keepsPolicy_iff (h : i.Askable store start stop) (a : Address) :
    let o := i.run store a start stop
    ∃ q, o.trail.requests = [q]
      ∧ (KeepsPolicy i.kind (store.reply q) o
        ↔ ¬ Unlisted i.kind (store.reply q) ∧ ¬ Exhausts (store.reply q))
      ∧ (Unlisted i.kind (store.reply q) → o.result = .ok [] ∧ o.trail.alarms = [])
      ∧ (Exhausts (store.reply q) → (∃ fault, o.result = .error fault) ∧ o.trail.alarms = []) := by
  intro o
  obtain ⟨q, hrequests, hresult, halarms⟩ := run_of_reply h a
  have hsilent : Unlisted i.kind (store.reply q) → o.result = .ok [] ∧ o.trail.alarms = [] := by
    intro hunlisted
    rw [hresult, halarms]
    obtain ⟨ms, hdelivers, -⟩ := id hunlisted
    exact ⟨found_of_not_carries hunlisted.not_carries hunlisted.not_exhausts,
      reported_of_delivers hdelivers i.key⟩
  have hfault : Exhausts (store.reply q) →
      (∃ fault, o.result = .error fault) ∧ o.trail.alarms = [] := by
    intro hexhausts
    rw [hresult, halarms]
    exact ⟨found_of_exhausts hexhausts, reported_of_exhausts hexhausts i.key⟩
  refine ⟨q, hrequests, ⟨fun hkeeps => ⟨fun hunlisted => ?_, fun hexhausts => ?_⟩, ?_⟩,
    hsilent, hfault⟩
  · have hdue := (hkeeps.degraded hunlisted.not_carries).2
    rw [(hsilent hunlisted).2] at hdue
    exact absurd hdue (List.cons_ne_nil _ _).symm
  · obtain ⟨fault, hnone⟩ := (hfault hexhausts).1
    have hdegraded := (hkeeps.degraded fun _ hcarries => hcarries.not_exhausts hexhausts).1
    rw [hnone] at hdegraded
    cases hdegraded
  · rintro ⟨hunlisted, hread⟩
    constructor
    · intro values hcarries
      obtain ⟨ms, hdelivers, -⟩ := id hcarries
      exact ⟨hresult.trans (found_of_carries hcarries),
        halarms.trans (reported_of_delivers hdelivers i.key)⟩
    · intro hcarries
      rw [halarms]
      exact ⟨hresult.trans (found_of_not_carries hcarries hread),
        levels_reported hcarries hunlisted hread i.key⟩

/-- A partial answer whose list is not of texts alone. -/
def someBody : String := "\x7b\"data\":[\"a\",null,\"\\ud800\"]\x7d"

/-- A list is found as it is, whatever its items are. -/
theorem keepsPolicy_someBody :
    let store : Store := { reply := fun _ => .answered 206 (readText 900 someBody) }
    Askable store none none (.label "host" [])
      ∧ ((label "host" []).run store (.ofUrl "http://store/") none none).result
        = .ok [.string "a", .null, .unpaired [0xD800]]
      ∧ ((label "host" []).run store (.ofUrl "http://store/") none none).trail.alarms = [] := by
  intro store
  have hasked : Askable store none none (.label "host" []) :=
    ⟨⟨nofun, nofun⟩, fun _ _ => by rfl⟩
  have hbody : readText 900 someBody
      = .ok (.object [("data", .array [.string "a", .null, .unpaired [0xD800]])]) := by rfl
  have hcarries : Carries .label (.answered 206 (readText 900 someBody))
      [.string "a", .null, .unpaired [0xD800]] := by
    rw [hbody]
    exact ⟨_, .object (by decide), rfl⟩
  obtain ⟨q, -, hpolicy, -⟩ := keepsPolicy_iff hasked (.ofUrl "http://store/")
  exact ⟨hasked, (hpolicy.mpr ⟨fun hunlisted => hunlisted.not_carries _ hcarries,
    hcarries.not_exhausts⟩).listed _ hcarries⟩

/-- An answer without values: no alarm is raised. -/
theorem silent_without_values :
    let reply : Reply := .answered 200 (readText 900 "\x7b\"status\":\"success\"\x7d")
    let o := (label "host" []).run { reply := fun _ => reply } (.ofUrl "http://store/") none none
    Unlisted .label reply ∧ o.result = .ok [] ∧ o.trail.alarms = []
      ∧ ¬ KeepsPolicy .label reply o := by
  have hbody : readText 900 "\x7b\"status\":\"success\"\x7d"
      = .ok (.object [("status", .string "success")]) := by rfl
  have hunlisted : Unlisted .label
      (.answered 200 (readText 900 "\x7b\"status\":\"success\"\x7d")) := by
    rw [hbody]
    exact ⟨_, .object (by decide), nofun⟩
  refine ⟨hunlisted, by rfl, by rfl, fun hkeeps => ?_⟩
  have hdue := (hkeeps.degraded hunlisted.not_carries).2
  exact absurd hdue (by decide)

end Inquiry

end LogQuery.Lookup
