/-
# The list of banks

The banks are fetched from a payment provider and kept for a day; where there is no key, or the
provider fails, a static list takes their place for an hour. Calls that come while they are
fetched share the fetch. The service answers as a cache that is filled by one request at a time,
whatever the provider does and however the calls come.
-/

import SecureStore.Foundation.SingleFlight
import SecureStore.Inventory.Types
import Mathlib.Data.List.Sort
import Mathlib.Tactic.Linarith

namespace SecureStore.Reference

open SecureStore.Foundation SecureStore.Foundation.SingleFlight
open SecureStore.Inventory (Timestamp)

inductive BankType where
  | nuban
  | mobileMoney
  deriving DecidableEq

structure BankRecord where
  name : String
  slug : String
  code : String
  type : BankType
  deriving DecidableEq

inductive BankSource where
  | paystack
  | fallback
  deriving DecidableEq

structure CachedBanks where
  fetchedAt : Timestamp
  source : BankSource
  banks : List BankRecord
  deriving DecidableEq

def BANK_CACHE_TTL_MS : ℤ := 24 * 60 * 60 * 1000

/-- An entry of the provider's list. -/
structure PaystackBank where
  name : String
  slug : String
  code : String
  type : Option String

/-- What becomes of a request to the provider: no response in time or one that cannot be read,
a status that is not ok, or a body. -/
inductive PaystackResponse where
  | failed
  | refused
  | body (status : Bool) (data : Option (List PaystackBank))

/-- The banks of the service, and the calls that await the fetch in flight or whose fetch is
over. -/
structure ReferenceService where
  bankCache : Option CachedBanks
  inFlight : Option (List ℕ)
  resolved : List (ℕ × CachedBanks)

namespace ReferenceService

def initial : ReferenceService := ⟨none, none, []⟩

def readFreshCache (s : ReferenceService) (now : Timestamp) : Option CachedBanks :=
  s.bankCache.filter fun c => now - c.fetchedAt < BANK_CACHE_TTL_MS

section Service

/- `localeCompare` puts the first name before the second or level with it. -/
variable (localeLE : String → String → Bool) (banksFallback : List BankRecord)

def sortBanks (banks : List BankRecord) : List BankRecord :=
  banks.insertionSort fun a b => localeLE a.name b.name = true

def bankRecord (b : PaystackBank) : BankRecord :=
  ⟨b.name, b.slug, b.code, if b.type = some "mobile_money" then .mobileMoney else .nuban⟩

/-- The static list, dated back so that it expires in an hour. -/
def cacheFallback (now : Timestamp) : CachedBanks :=
  { fetchedAt := now - (BANK_CACHE_TTL_MS - 60 * 60 * 1000)
    source := .fallback
    banks := sortBanks localeLE banksFallback }

/-- What a fetch with a key keeps when its response is there. -/
def fetchBanks (response : PaystackResponse) (now : Timestamp) : CachedBanks :=
  match response with
  | .body true (some data) =>
      { fetchedAt := now, source := .paystack, banks := sortBanks localeLE (data.map bankRecord) }
  | _ => cacheFallback localeLE banksFallback now

/-- A turn of the event loop: a call up to where it waits, the rest of a fetch together with the
release of `inFlight`, and the rest of a call that waited. -/
inductive Turn where
  | getBanks (now : Timestamp) (call : ℕ)
  | fetched (now : Timestamp) (response : PaystackResponse)
  | resumed (call : ℕ)

/-- A fetch is over: what it brought is kept and is what its calls resume with. -/
def settle (s : ReferenceService) (calls : List ℕ) (c : CachedBanks) : ReferenceService :=
  ⟨some c, none, s.resolved ++ calls.map fun call => (call, c)⟩

/-- One turn, with what it does to the cache; without a key a fetch is over at once. -/
def step (key : Option String) (s : ReferenceService) :
    Turn → Option (ReferenceService × List (Event Timestamp CachedBanks))
  | .getBanks now call =>
      match s.readFreshCache now, s.inFlight with
      | some cached, _ => some (s, [.hit now call cached])
      | none, some calls => some ({ s with inFlight := some (calls ++ [call]) }, [.join now call])
      | none, none =>
          match key with
          | some _ => some ({ s with inFlight := some [call] }, [.request now call])
          | none =>
              let c := cacheFallback localeLE banksFallback now
              some (s.settle [call] c, [.request now call, .finish now c])
  | .fetched now response =>
      match s.inFlight with
      | none => none
      | some calls =>
          let c := fetchBanks localeLE banksFallback response now
          some (s.settle calls c, [.finish now c])
  | .resumed call =>
      match s.resolved.find? fun r => r.1 = call with
      | none => none
      | some r => some ({ s with resolved := s.resolved.erase r }, [.resume call r.2])

/-- Turn after turn, with the log of what they did. -/
def run (key : Option String) : List Turn → ReferenceService →
    Option (ReferenceService × List (Event Timestamp CachedBanks))
  | [], s => some (s, [])
  | turn :: turns, s =>
      (step localeLE banksFallback key s turn).bind fun next =>
        (run key turns next.1).map fun rest => (rest.1, next.2 ++ rest.2)

end Service

/-! ## The cache of the library -/

/-- When what is kept is no longer fresh. -/
def expires (c : CachedBanks) : Timestamp := c.fetchedAt + BANK_CACHE_TTL_MS

/-- An hour, the least that an answer of the provider or its stand-in is kept. -/
def hour : ℤ := 60 * 60 * 1000

def cell (s : ReferenceService) : Cell CachedBanks := ⟨s.bankCache, s.inFlight, s.resolved⟩

section Simulation

variable {localeLE : String → String → Bool} {banksFallback : List BankRecord}
  {key : Option String} {s s' : ReferenceService}

theorem readFreshCache_eq_some {now : Timestamp} {c : CachedBanks} :
    s.readFreshCache now = some c ↔ s.bankCache = some c ∧ now < expires c := by
  unfold readFreshCache expires
  rw [Option.filter_eq_some_iff, decide_eq_true_eq, sub_lt_iff_lt_add']

theorem stale_of_readFreshCache {now : Timestamp} (h : s.readFreshCache now = none) :
    ¬ s.cell.Fresh expires now := by
  rintro ⟨c, hkept, hfresh⟩
  rw [readFreshCache_eq_some.mpr ⟨hkept, hfresh⟩] at h
  cases h

theorem lasts_fallback (now : Timestamp) :
    now + hour ≤ expires (cacheFallback localeLE banksFallback now) := by
  unfold hour expires cacheFallback BANK_CACHE_TTL_MS
  linarith

theorem lasts_fetched (response : PaystackResponse) (now : Timestamp) :
    now + hour ≤ expires (fetchBanks localeLE banksFallback response now) := by
  unfold fetchBanks
  split
  · unfold hour expires BANK_CACHE_TTL_MS
    linarith
  · exact lasts_fallback now

/-- What a turn can do. -/
inductive Does (localeLE : String → String → Bool) (banksFallback : List BankRecord)
    (s : ReferenceService) :
    Turn → ReferenceService → List (Event Timestamp CachedBanks) → Prop
  | hit {now : Timestamp} {call : ℕ} {cached : CachedBanks}
      (fresh : s.readFreshCache now = some cached) :
      Does localeLE banksFallback s (.getBanks now call) s [.hit now call cached]
  | join {now : Timestamp} {call : ℕ} {calls : List ℕ} (stale : s.readFreshCache now = none)
      (flying : s.inFlight = some calls) :
      Does localeLE banksFallback s (.getBanks now call)
        { s with inFlight := some (calls ++ [call]) } [.join now call]
  | request {now : Timestamp} {call : ℕ} (stale : s.readFreshCache now = none)
      (landed : s.inFlight = none) :
      Does localeLE banksFallback s (.getBanks now call) { s with inFlight := some [call] }
        [.request now call]
  | keyless {now : Timestamp} {call : ℕ} (stale : s.readFreshCache now = none)
      (landed : s.inFlight = none) :
      Does localeLE banksFallback s (.getBanks now call)
        (s.settle [call] (cacheFallback localeLE banksFallback now))
        [.request now call, .finish now (cacheFallback localeLE banksFallback now)]
  | fetched {now : Timestamp} {response : PaystackResponse} {calls : List ℕ}
      (flying : s.inFlight = some calls) :
      Does localeLE banksFallback s (.fetched now response)
        (s.settle calls (fetchBanks localeLE banksFallback response now))
        [.finish now (fetchBanks localeLE banksFallback response now)]
  | resumed {call : ℕ} {r : ℕ × CachedBanks}
      (found : s.resolved.find? (fun r => r.1 = call) = some r) :
      Does localeLE banksFallback s (.resumed call) { s with resolved := s.resolved.erase r }
        [.resume call r.2]

theorem does_of_step {turn : Turn} {events : List (Event Timestamp CachedBanks)}
    (hstep : step localeLE banksFallback key s turn = some (s', events)) :
    Does localeLE banksFallback s turn s' events := by
  cases turn with
  | getBanks now call =>
      unfold step at hstep
      cases hread : s.readFreshCache now with
      | some cached =>
          simp only [hread, Option.some_inj, Prod.mk.injEq] at hstep
          obtain ⟨rfl, rfl⟩ := hstep
          exact .hit hread
      | none =>
          cases hflight : s.inFlight with
          | some calls =>
              simp only [hread, hflight, Option.some_inj, Prod.mk.injEq] at hstep
              obtain ⟨rfl, rfl⟩ := hstep
              exact .join hread hflight
          | none =>
              cases key with
              | some _ =>
                  simp only [hread, hflight, Option.some_inj, Prod.mk.injEq] at hstep
                  obtain ⟨rfl, rfl⟩ := hstep
                  exact .request hread hflight
              | none =>
                  simp only [hread, hflight, Option.some_inj, Prod.mk.injEq] at hstep
                  obtain ⟨rfl, rfl⟩ := hstep
                  exact .keyless hread hflight
  | fetched now response =>
      unfold step at hstep
      cases hflight : s.inFlight with
      | none =>
          simp only [hflight] at hstep
          cases hstep
      | some calls =>
          simp only [hflight, Option.some_inj, Prod.mk.injEq] at hstep
          obtain ⟨rfl, rfl⟩ := hstep
          exact .fetched hflight
  | resumed call =>
      unfold step at hstep
      cases hfind : s.resolved.find? fun r => r.1 = call with
      | none =>
          simp only [hfind] at hstep
          cases hstep
      | some r =>
          simp only [hfind, Option.some_inj, Prod.mk.injEq] at hstep
          obtain ⟨rfl, rfl⟩ := hstep
          exact .resumed hfind

/-- Each turn is one step of the library's cache, or two where there is no key. -/
theorem Does.steps {turn : Turn} {log events : List (Event Timestamp CachedBanks)}
    (hdoes : Does localeLE banksFallback s turn s' events)
    (h : Steps expires hour log s.cell) : Steps expires hour (log ++ events) s'.cell := by
  cases hdoes with
  | hit fresh =>
      obtain ⟨hkept, hfresh⟩ := readFreshCache_eq_some.mp fresh
      exact h.next (.hit hkept hfresh)
  | join stale flying => exact h.next (.join (stale_of_readFreshCache stale) flying)
  | request stale landed => exact h.next (.request (stale_of_readFreshCache stale) landed)
  | @keyless now call stale landed =>
      have hrequested : Steps expires hour (log ++ [.request now call])
          { s with inFlight := some [call] }.cell :=
        h.next (.request (stale_of_readFreshCache stale) landed)
      rw [List.append_cons]
      exact hrequested.next (.finish rfl (lasts_fallback _))
  | fetched flying => exact h.next (.finish flying (lasts_fetched _ _))
  | @resumed call r found =>
      have hcall : r.1 = call := by simpa using List.find?_some found
      obtain ⟨before, after, -, hdue, herased⟩ :=
        List.exists_erase_eq (List.mem_of_find?_eq_some found)
      subst hcall
      have hresumed := h.next (.resume hdue)
      unfold cell at hresumed ⊢
      rw [herased]
      exact hresumed

theorem run_steps {turns : List Turn} {log events : List (Event Timestamp CachedBanks)}
    (h : Steps expires hour log s.cell)
    (hrun : run localeLE banksFallback key turns s = some (s', events)) :
    Steps expires hour (log ++ events) s'.cell := by
  induction turns generalizing s log events with
  | nil =>
      obtain ⟨rfl, rfl⟩ := Prod.mk.inj (Option.some_inj.mp hrun)
      rwa [List.append_nil]
  | cons turn turns ih =>
      unfold run at hrun
      obtain ⟨next, hstep, hrest⟩ := Option.bind_eq_some_iff.mp hrun
      obtain ⟨rest, hlater, hpair⟩ := Option.map_eq_some_iff.mp hrest
      obtain ⟨rfl, rfl⟩ := Prod.mk.inj hpair
      rw [← List.append_assoc]
      exact ih ((does_of_step hstep).steps h) hlater

/-- What a fetch that is over kept: the static list, or the list of a response that came in one
of the turns. -/
def Brought (localeLE : String → String → Bool) (banksFallback : List BankRecord)
    (turns : List Turn) (t : Timestamp) (c : CachedBanks) : Prop :=
  c = cacheFallback localeLE banksFallback t ∨
    ∃ data, .fetched t (.body true (some data)) ∈ turns ∧ c.fetchedAt = t ∧
      c.source = .paystack ∧ c.banks.Perm (data.map bankRecord)

theorem brought_fetched {turns : List Turn} {t : Timestamp} {response : PaystackResponse}
    (h : .fetched t response ∈ turns) :
    Brought localeLE banksFallback turns t (fetchBanks localeLE banksFallback response t) := by
  unfold fetchBanks
  split
  · rename_i data
    exact .inr ⟨data, h, rfl, rfl, List.perm_insertionSort _ _⟩
  · exact .inl rfl

theorem Does.brought {turns : List Turn} {turn : Turn} (hturn : turn ∈ turns)
    {events : List (Event Timestamp CachedBanks)}
    (hdoes : Does localeLE banksFallback s turn s' events) {t : Timestamp}
    {c : CachedBanks} (hfinished : (t, c) ∈ events.filterMap Event.finished) :
    Brought localeLE banksFallback turns t c := by
  cases hdoes with
  | @keyless now =>
      obtain ⟨rfl, rfl⟩ : now = t ∧ cacheFallback localeLE banksFallback now = c := by
        simpa [Event.finished] using hfinished
      exact .inl rfl
  | @fetched now response =>
      obtain ⟨rfl, rfl⟩ : t = now ∧ c = fetchBanks localeLE banksFallback response now := by
        simpa [Event.finished] using hfinished
      exact brought_fetched hturn
  | hit => simp [Event.finished] at hfinished
  | join => simp [Event.finished] at hfinished
  | request => simp [Event.finished] at hfinished
  | resumed => simp [Event.finished] at hfinished

theorem run_brought {turns rest : List Turn} (hturns : ∀ turn ∈ rest, turn ∈ turns)
    {events : List (Event Timestamp CachedBanks)}
    (hrun : run localeLE banksFallback key rest s = some (s', events)) {t : Timestamp}
    {c : CachedBanks} (hfinished : (t, c) ∈ events.filterMap Event.finished) :
    Brought localeLE banksFallback turns t c := by
  induction rest generalizing s events with
  | nil =>
      obtain ⟨-, rfl⟩ := Prod.mk.inj (Option.some_inj.mp hrun)
      exact absurd hfinished List.not_mem_nil
  | cons turn rest ih =>
      unfold run at hrun
      obtain ⟨next, hstep, hrest⟩ := Option.bind_eq_some_iff.mp hrun
      obtain ⟨later, hlater, hpair⟩ := Option.map_eq_some_iff.mp hrest
      obtain ⟨rfl, rfl⟩ := Prod.mk.inj hpair
      rw [List.filterMap_append] at hfinished
      rcases List.mem_append.mp hfinished with hhere | hthere
      · exact (does_of_step hstep).brought (hturns turn List.mem_cons_self) hhere
      · exact ih (fun turn' h => hturns turn' (List.mem_cons_of_mem _ h)) hlater hthere

/-- How long a list is served. -/
def lifetime : BankSource → ℤ
  | .paystack => 24 * hour
  | .fallback => hour

theorem Brought.expires_eq {turns : List Turn} {t : Timestamp} {c : CachedBanks}
    (h : Brought localeLE banksFallback turns t c) : expires c = t + lifetime c.source := by
  rcases h with rfl | ⟨data, -, hat, hsource, -⟩
  · unfold expires lifetime cacheFallback BANK_CACHE_TTL_MS hour
    linarith
  · rw [hsource, expires, hat, lifetime, BANK_CACHE_TTL_MS, hour]
    linarith

/-- However the calls come and whatever the provider does, the fetches are an hour apart, so that
no window of some hours sees more fetches than hours; a call is answered with the list that some
fetch brought less than a day before, or less than an hour before where that was the static one;
and each call is answered once, unless it still waits. -/
theorem banks_coalesced {turns : List Turn} {log : List (Event Timestamp CachedBanks)}
    (h : run localeLE banksFallback key turns initial = some (s, log)) (htimely : Timely log) :
    (log.filterMap Event.requested).Pairwise (fun t t' => t + hour ≤ t') ∧
    (∀ start, ∀ n : ℕ, ((log.filterMap Event.requested).filter fun t =>
      start ≤ t ∧ t < start + n * hour).length ≤ n) ∧
    (∀ call c, (call, c) ∈ log.filterMap Event.answered → ∃ now t,
      (now, call) ∈ log.filterMap Event.asked ∧ (t, c) ∈ log.filterMap Event.finished ∧
        Brought localeLE banksFallback turns t c ∧ now < t + lifetime c.source) ∧
    ((log.filterMap Event.asked).map Prod.snd).Perm ((log.filterMap Event.answered).map Prod.fst ++
      (s.inFlight.getD [] ++ s.resolved.map Prod.fst)) := by
  have hsteps : Steps expires hour ([] ++ log) s.cell := run_steps .start h
  rw [List.nil_append] at hsteps
  refine ⟨hsteps.requests_apart htimely, ?_, ?_, hsteps.calls_once⟩
  · intro start n
    have hwindow := hsteps.requests_le htimely start n
    rwa [nsmul_eq_mul] at hwindow
  · intro call c hanswered
    obtain ⟨now, t, hasked, hfinished, hfresh⟩ :=
      hsteps.answers (by decide) htimely hanswered
    have hbrought : Brought localeLE banksFallback turns t c :=
      run_brought (fun _ hturn => hturn) h hfinished
    exact ⟨now, t, hasked, hfinished, hbrought, hbrought.expires_eq ▸ hfresh⟩

/-- Two calls share a fetch that fails; an hour later, a third makes the next one. -/
def sharedTurns : List Turn :=
  [.getBanks 0 1, .getBanks 5 2, .fetched 10 .failed, .resumed 2, .resumed 1,
    .getBanks (10 + hour) 3]

def sharedRun : ReferenceService × List (Event Timestamp CachedBanks) :=
  (run (fun _ _ => true) [] (some "key") sharedTurns initial).getD (initial, [])

theorem banks_coalesced_sample :
    sharedRun.2.filterMap Event.requested = [0, 10 + hour] ∧
      (sharedRun.2.filterMap Event.requested).Pairwise fun t t' => t + hour ≤ t' := by
  have hrun : run (fun _ _ => true) [] (some "key") sharedTurns initial = some sharedRun := rfl
  have htimely : Timely sharedRun.2 := by
    unfold Timely
    decide
  exact ⟨rfl, (banks_coalesced hrun htimely).1⟩

end Simulation

end ReferenceService

end SecureStore.Reference
