import AshA2A.Passport.Encoding
import AshA2A.Protocol.CardCache
import Mathlib.Data.List.Induction

/-! The cache of agent cards against the history of the servers it asks. -/

namespace AshA2A.Protocol.CardCache

/-! ## Servers and runs -/

structure Resource where
  body : Bytes
  lastModified : Option String
  cacheControl : Option String

/-- At one URL and path, an ETag stands for one body. -/
structure Tags where
  etag : (url path : String) → Bytes → String
  strong : ∀ url path first second, etag url path first = etag url path second → first = second

/-- Why a request is not answered by the resource. -/
inductive Outage where
  | status (status : Nat) (failure : status ≠ 200 ∧ status ≠ 304)
  | transport (reason : String)

/-- A body that was answered with, or confirmed, at a time. -/
structure Served where
  body : Bytes
  cacheControl : Option String
  time : Int

structure World where
  files : Files
  server : (url path : String) → Option Resource
  /-- What was served at a URL and a path. -/
  history : (url path : String) → List Served
  /-- The path of the card that was stored last for a URL. -/
  stored : String → Option String

def World.start : World := ⟨fun _ => none, fun _ _ => none, fun _ _ => [], fun _ => none⟩

inductive Step (library : Json.Library) where
  | serve (url path : String) (resource : Option Resource)
  /-- The body in a file is overwritten by one that cannot be read. -/
  | corrupt (url : String) (body : Bytes) (unreadable : ∀ card, decodeBody library body ≠ .card card)
  | lose (url : String)
  | fetch (url : String) (opts : Options) (outage : Option Outage)

section Runs
variable (library : Json.Library) (tags : Tags)

def requestOf (server : String → String → Option Resource) (url path : String) (outage : Option Outage) : Get := fun validator =>
  match outage, server url path with
  | some (.transport reason), _ => .error reason
  | some (.status status _), _ => .ok ⟨status, [], none, none, none⟩
  | none, none => .ok ⟨404, [], none, none, none⟩
  | none, some resource =>
    let etag := tags.etag url path resource.body
    if validator = some (.ifNoneMatch etag) then .ok ⟨304, [], some etag, resource.lastModified, resource.cacheControl⟩
    else .ok ⟨200, resource.body, some etag, resource.lastModified, resource.cacheControl⟩

def fetched (world : World) (url : String) (opts : Options) (outage : Option Outage) : Files × Answer :=
  fetch library (requestOf tags world.server url opts.agentCardPath outage) world.files url opts

/-- What the server stood by when it answered. -/
def served (world : World) (url : String) (opts : Options) : Answer → List Served
  | .ok _ .fresh | .ok _ .notModified =>
    ((world.server url opts.agentCardPath).map fun resource => ⟨resource.body, resource.cacheControl, opts.now⟩).toList
  | _ => []

def storedPath (opts : Options) (before : Option String) : Answer → Option String
  | .ok _ .fresh => some opts.agentCardPath
  | _ => before

def World.step (world : World) : Step library → World
  | .serve url path resource =>
    { world with server := Function.update world.server url (Function.update (world.server url) path resource) }
  | .corrupt url body _ =>
    { world with files := Function.update world.files url ((world.files url).map fun entry => { entry with body := body }) }
  | .lose url => { world with files := Function.update world.files url none }
  | .fetch url opts outage =>
    let (files, answer) := fetched library tags world url opts outage
    { world with
      files := files
      history := Function.update world.history url (Function.update (world.history url) opts.agentCardPath
        (served world url opts answer ++ world.history url opts.agentCardPath))
      stored := Function.update world.stored url (storedPath opts (world.stored url) answer) }

def World.run (steps : List (Step library)) : World := steps.foldl (World.step library tags) .start

/-! ## Coherence -/

/-- The server's card at this moment. -/
def Current (world : World) (url path : String) (outage : Option Outage) (card : AgentCard) : Prop :=
  outage = none ∧ ∃ resource, world.server url path = some resource ∧ decodeBody library resource.body = .card card

/-- The server answers with a text that is a card. -/
def Serves (world : World) (url path : String) (outage : Option Outage) (card : AgentCard) : Prop :=
  outage = none ∧ ∃ resource, world.server url path = some resource ∧ isText resource.body = true ∧
    decodeBody library resource.body = .card card

/-- The answer is what the cache promises of it. -/
def Coherent (world : World) (url : String) (opts : Options) (outage : Option Outage) : Answer → Prop
  | .ok card .cached => ∃ one ∈ world.history url opts.agentCardPath, ∃ other ∈ world.history url opts.agentCardPath,
      decodeBody library one.body = .card card ∧ other.body = one.body ∧
        opts.now - one.time < maxAge opts other.cacheControl * 1000
  | .ok card .fresh | .ok card .notModified => Current library world url opts.agentCardPath outage card
  | .ok card .stale => ∃ one ∈ world.history url opts.agentCardPath, decodeBody library one.body = .card card
  | .error _ | .raised => ∀ card, ¬Serves library world url opts.agentCardPath outage card

/-- The server confirms the ETag of the entry. -/
def Unmodified (world : World) (url path : String) (outage : Option Outage) (entry : Entry) : Prop :=
  outage = none ∧ ∃ resource, world.server url path = some resource ∧
    conditionalHeaders entry = some (.ifNoneMatch (tags.etag url path resource.body))

/-- A card that was stored for another path is not used, and an entry that cannot be read neither is confirmed nor raises while
the server has a valid card. -/
structure Meets (world : World) (url : String) (opts : Options) (outage : Option Outage) : Prop where
  path : ∀ entry card, world.files url = some entry → decodeBody library entry.body = .card card →
    world.stored url ≠ some opts.agentCardPath → isFresh entry (maxAge opts entry.cacheControl) opts.now = false ∧
      outage = none ∧ world.server url opts.agentCardPath ≠ none ∧
      ¬Unmodified tags world url opts.agentCardPath outage entry
  readable : ∀ entry, world.files url = some entry → (∀ card, decodeBody library entry.body ≠ .card card) →
    ∀ card, Serves library world url opts.agentCardPath outage card →
      ¬Unmodified tags world url opts.agentCardPath outage entry ∧
      (decodeBody library entry.body = .raised → isFresh entry (maxAge opts entry.cacheControl) opts.now = false)

end Runs

/-! ## One fetch -/

section Fetch
variable {library : Json.Library} {tags : Tags} {world : World} {url : String} {opts : Options} {outage : Option Outage}
  {entry : Entry} {resource : Resource}

/-- A card in the file of a URL was served there, with the ETag that stands for it. -/
def Kept (library : Json.Library) (tags : Tags) (url : String) (history : String → List Served) (stored : Option String)
    (entry : Entry) : Prop :=
  ∀ card, decodeBody library entry.body = .card card → ∃ path, stored = some path ∧
    entry.etag = some (tags.etag url path entry.body) ∧
    (∃ one ∈ history path, one.body = entry.body ∧ one.time = entry.fetchedAt) ∧
    ∃ other ∈ history path, other.body = entry.body ∧ other.cacheControl = entry.cacheControl

def Coheres (library : Json.Library) (tags : Tags) (world : World) : Prop :=
  ∀ url entry, world.files url = some entry → Kept library tags url (world.history url) (world.stored url) entry

/-- What a fetch has to establish. -/
structure Sound (library : Json.Library) (tags : Tags) (world : World) (url : String) (opts : Options) (outage : Option Outage)
    (result : Files × Answer) : Prop where
  coherent : Coherent library world url opts outage result.2
  others : ∀ other, other ≠ url → result.1 other = world.files other
  kept : ∀ entry, result.1 url = some entry → Kept library tags url (Function.update (world.history url) opts.agentCardPath
    (served world url opts result.2 ++ world.history url opts.agentCardPath)) (storedPath opts (world.stored url) result.2) entry

/-- An answer that changes nothing. -/
theorem sound_unchanged {answer : Answer} (coheres : Coheres library tags world)
    (coherent : Coherent library world url opts outage answer) (idle : served world url opts answer = [])
    (same : storedPath opts (world.stored url) answer = world.stored url) :
    Sound library tags world url opts outage (world.files, answer) where
  coherent := coherent
  others _ _ := rfl
  kept entry held := by
    rw [idle, same, List.nil_append, Function.update_eq_self]
    exact coheres url entry held

theorem sound_written {answer : Answer} (coherent : Coherent library world url opts outage answer)
    (kept : Kept library tags url (Function.update (world.history url) opts.agentCardPath
      (served world url opts answer ++ world.history url opts.agentCardPath)) (storedPath opts (world.stored url) answer) entry) :
    Sound library tags world url opts outage (write world.files url entry, answer) where
  coherent := coherent
  others other different := Function.update_of_ne different _ _
  kept other held := by
    have self : write world.files url entry url = some entry := Function.update_self _ _ _
    obtain rfl := Option.some.inj (self.symm.trans held)
    exact kept

theorem requestOf_modified (up : outage = none) (there : world.server url opts.agentCardPath = some resource)
    {validator : Option Validator} (modified : validator ≠ some (.ifNoneMatch (tags.etag url opts.agentCardPath resource.body))) :
    requestOf tags world.server url opts.agentCardPath outage validator =
      .ok ⟨200, resource.body, some (tags.etag url opts.agentCardPath resource.body), resource.lastModified,
        resource.cacheControl⟩ := by
  simp only [requestOf, up, there, if_neg modified]

theorem requestOf_unmodified (up : outage = none) (there : world.server url opts.agentCardPath = some resource) :
    requestOf tags world.server url opts.agentCardPath outage
        (some (.ifNoneMatch (tags.etag url opts.agentCardPath resource.body))) =
      .ok ⟨304, [], some (tags.etag url opts.agentCardPath resource.body), resource.lastModified, resource.cacheControl⟩ := by
  simp only [requestOf, up, there, if_pos]

/-- The request fails, or is answered by neither the card nor its confirmation. -/
theorem requestOf_down (tags : Tags) (down : outage ≠ none ∨ world.server url opts.agentCardPath = none) (validator : Option Validator) :
    (∃ reason, requestOf tags world.server url opts.agentCardPath outage validator = .error reason) ∨
      ∃ response, requestOf tags world.server url opts.agentCardPath outage validator = .ok response ∧
        response.status ≠ 200 ∧ response.status ≠ 304 := by
  cases outage with
  | some failing =>
    cases failing with
    | transport reason => exact .inl ⟨reason, rfl⟩
    | status status failure => exact .inr ⟨_, rfl, failure⟩
  | none =>
    have gone := down.resolve_left (not_not.mpr rfl)
    refine .inr ⟨⟨404, [], none, none, none⟩, ?_, by decide, by decide⟩
    simp only [requestOf, gone]

theorem down_unserved (down : outage ≠ none ∨ world.server url opts.agentCardPath = none) (card : AgentCard) :
    ¬Serves library world url opts.agentCardPath outage card := by
  rintro ⟨up, resource, there, _⟩
  rcases down with failing | gone
  · exact failing up
  · rw [gone] at there
    cases there

theorem storeFresh_sound (coheres : Coheres library tags world) (up : outage = none)
    (there : world.server url opts.agentCardPath = some resource) :
    Sound library tags world url opts outage (storeFresh library world.files url
      ⟨200, resource.body, some (tags.etag url opts.agentCardPath resource.body), resource.lastModified, resource.cacheControl⟩
      opts.now) := by
  have only {card : AgentCard} (serves : Serves library world url opts.agentCardPath outage card) :
      isText resource.body = true ∧ decodeBody library resource.body = .card card := by
    obtain ⟨_, other, found, text, decoded⟩ := serves
    rw [there] at found
    exact Option.some.inj found ▸ ⟨text, decoded⟩
  by_cases text : isText resource.body = true
  · simp only [storeFresh, storeResponse, if_pos text]
    cases decoded : decodeBody library resource.body with
    | card card =>
      refine sound_written ⟨up, resource, there, decoded⟩ fun card' decoded' => ⟨opts.agentCardPath, rfl, rfl, ?_, ?_⟩ <;>
      · rw [Function.update_self, answerOf, served, there]
        exact ⟨_, List.mem_cons_self, rfl, rfl⟩
    | error =>
      refine sound_written (fun card serves => ?_) fun card readable => ?_
      · exact nomatch decoded.symm.trans (only serves).2
      · exact nomatch decoded.symm.trans readable
    | raised =>
      refine sound_written (fun card serves => ?_) fun card readable => ?_
      · exact nomatch decoded.symm.trans (only serves).2
      · exact nomatch decoded.symm.trans readable
  · simp only [storeFresh, storeResponse, if_neg text]
    exact sound_unchanged coheres (fun card serves => text (only serves).1) rfl rfl

theorem coldFetch_sound (coheres : Coheres library tags world) : Sound library tags world url opts outage
    (coldFetch library (requestOf tags world.server url opts.agentCardPath outage) world.files url opts.now) := by
  by_cases down : outage ≠ none ∨ world.server url opts.agentCardPath = none
  · rcases requestOf_down tags down none with ⟨reason, answer⟩ | ⟨response, answer, refused, _⟩
    · simp only [coldFetch, answer]
      exact sound_unchanged coheres (fun card => down_unserved down card) rfl rfl
    · simp only [coldFetch, answer, if_neg refused]
      exact sound_unchanged coheres (fun card => down_unserved down card) rfl rfl
  · obtain ⟨up, there⟩ := not_or.mp down
    obtain ⟨resource, there⟩ := Option.ne_none_iff_exists'.mp there
    have up := not_not.mp up
    have answer : requestOf tags world.server url opts.agentCardPath outage none = _ := requestOf_modified up there (by simp)
    simp only [coldFetch, answer, if_true]
    exact storeFresh_sound coheres up there

/-- The stored card is confirmed only where it is the server's. -/
theorem confirmed_body {path : String} (held : entry.etag = some (tags.etag url path entry.body))
    (sent : conditionalHeaders entry = some (.ifNoneMatch (tags.etag url path resource.body))) : resource.body = entry.body := by
  by_cases empty : tags.etag url path entry.body = ""
  · have none : entry.etag.filter (· ≠ "") = none := by simp [held, empty]
    rw [conditionalHeaders, none] at sent
    generalize entry.lastModified.filter (· ≠ "") = modified at sent
    cases modified <;> cases sent
  · have some : entry.etag.filter (· ≠ "") = some (tags.etag url path entry.body) := by simp [held, empty]
    rw [conditionalHeaders, some] at sent
    exact tags.strong url path _ _ (Validator.ifNoneMatch.inj (Option.some.inj sent)).symm

/-- Without the server, a card that was served at this path is used. -/
theorem stale_sound (coheres : Coheres library tags world) (held : world.files url = some entry)
    (down : outage ≠ none ∨ world.server url opts.agentCardPath = none)
    (own : ∀ card, decodeBody library entry.body = .card card → world.stored url = some opts.agentCardPath) :
    Sound library tags world url opts outage (world.files, staleOrError library entry) := by
  rw [staleOrError]
  cases decoded : decodeBody library entry.body with
  | card card =>
    refine sound_unchanged coheres ?_ rfl rfl
    obtain ⟨path, stored, _, ⟨one, served, body, _⟩, _⟩ := coheres url entry held card decoded
    obtain rfl := Option.some.inj (stored.symm.trans (own card decoded))
    exact ⟨one, served, body ▸ decoded⟩
  | error => exact sound_unchanged coheres (fun card => down_unserved down card) rfl rfl
  | raised => exact sound_unchanged coheres (fun card => down_unserved down card) rfl rfl

/-- A card that the server confirms is its own. -/
theorem confirmed_sound (coheres : Coheres library tags world) (held : world.files url = some entry)
    (up : outage = none) (there : world.server url opts.agentCardPath = some resource)
    (sent : conditionalHeaders entry = some (.ifNoneMatch (tags.etag url opts.agentCardPath resource.body)))
    (own : ∀ card, decodeBody library entry.body = .card card → world.stored url = some opts.agentCardPath)
    (unserved : (∀ card, decodeBody library entry.body ≠ .card card) →
      ∀ card, ¬Serves library world url opts.agentCardPath outage card) :
    Sound library tags world url opts outage (write world.files url
      { entry with fetchedAt := opts.now, cacheControl := resource.cacheControl.or entry.cacheControl },
      answerOf .notModified (decodeBody library entry.body)) := by
  cases decoded : decodeBody library entry.body with
  | error =>
    exact sound_written (unserved (by simp [decoded])) fun card readable => nomatch decoded.symm.trans readable
  | raised =>
    exact sound_written (unserved (by simp [decoded])) fun card readable => nomatch decoded.symm.trans readable
  | card card =>
    obtain ⟨path, stored, etag, _, other, among, body, control⟩ := coheres url entry held card decoded
    obtain rfl := Option.some.inj (stored.symm.trans (own card decoded))
    have same := confirmed_body etag sent
    refine sound_written ⟨up, resource, there, same ▸ decoded⟩ fun card' decoded' => ⟨opts.agentCardPath, stored, etag, ?_, ?_⟩
    · rw [Function.update_self, answerOf, served, there]
      exact ⟨_, List.mem_cons_self, same, rfl⟩
    · rw [Function.update_self, answerOf, served, there]
      cases given : resource.cacheControl with
      | none => exact ⟨other, List.mem_append_right _ among, body, control⟩
      | some text => exact ⟨_, List.mem_cons_self, same, given⟩

theorem revalidate_sound (coheres : Coheres library tags world) (held : world.files url = some entry)
    (path : ∀ card, decodeBody library entry.body = .card card → world.stored url ≠ some opts.agentCardPath →
      outage = none ∧ world.server url opts.agentCardPath ≠ none ∧ ¬Unmodified tags world url opts.agentCardPath outage entry)
    (readable : (∀ card, decodeBody library entry.body ≠ .card card) →
      ∀ card, Serves library world url opts.agentCardPath outage card →
        ¬Unmodified tags world url opts.agentCardPath outage entry) :
    Sound library tags world url opts outage (revalidate library
      (requestOf tags world.server url opts.agentCardPath outage) world.files url entry opts.now) := by
  by_cases down : outage ≠ none ∨ world.server url opts.agentCardPath = none
  · have stale : Sound library tags world url opts outage (world.files, staleOrError library entry) :=
      stale_sound coheres held down fun card decoded => by
        by_contra foreign
        obtain ⟨up, there, _⟩ := path card decoded foreign
        exact down.elim (fun failing => failing up) there
    rcases requestOf_down tags down (conditionalHeaders entry) with ⟨reason, answer⟩ | ⟨response, answer, refused, unconfirmed⟩
    · simp only [revalidate, answer]
      exact stale
    · simp only [revalidate, answer, if_neg refused, if_neg unconfirmed]
      exact stale
  · obtain ⟨up, there⟩ := not_or.mp down
    obtain ⟨resource, there⟩ := Option.ne_none_iff_exists'.mp there
    have up := not_not.mp up
    by_cases sent : conditionalHeaders entry = some (.ifNoneMatch (tags.etag url opts.agentCardPath resource.body))
    · have unmodified : Unmodified tags world url opts.agentCardPath outage entry := ⟨up, resource, there, sent⟩
      simp only [revalidate, sent, requestOf_unmodified up there, if_true]
      refine confirmed_sound coheres held up there sent (fun card decoded => ?_) fun unreadable card serves =>
        readable unreadable card serves unmodified
      by_contra foreign
      exact (path card decoded foreign).2.2 unmodified
    · have answer : requestOf tags world.server url opts.agentCardPath outage (conditionalHeaders entry) = _ :=
        requestOf_modified up there sent
      simp only [revalidate, answer, if_true]
      exact storeFresh_sound coheres up there

theorem fetch_sound (coheres : Coheres library tags world) (meets : Meets library tags world url opts outage) :
    Sound library tags world url opts outage (fetched library tags world url opts outage) := by
  unfold fetched fetch
  cases held : world.files url with
  | none => exact coldFetch_sound coheres
  | some entry =>
    have again : Sound library tags world url opts outage (revalidate library
        (requestOf tags world.server url opts.agentCardPath outage) world.files url entry opts.now) :=
      revalidate_sound coheres held (fun card decoded foreign => (meets.path entry card held decoded foreign).2)
        fun unreadable card serves => (meets.readable entry held unreadable card serves).1
    dsimp only
    split
    next fresh =>
      split
      next card decoded =>
        refine sound_unchanged coheres ?_ rfl rfl
        have own : world.stored url = some opts.agentCardPath := by
          by_contra foreign
          exact Bool.false_ne_true ((meets.path entry card held decoded foreign).1.symm.trans fresh)
        obtain ⟨path, stored, _, ⟨one, served, body, time⟩, other, among, same, control⟩ := coheres url entry held card decoded
        obtain rfl := Option.some.inj (stored.symm.trans own)
        refine ⟨one, served, other, among, body ▸ decoded, same.trans body.symm, ?_⟩
        rw [time, control]
        exact of_decide_eq_true fresh
      next => exact again
      next decoded =>
        refine sound_unchanged coheres (fun card serves => ?_) rfl rfl
        have expired := (meets.readable entry held (by simp [decoded]) card serves).2 decoded
        exact Bool.false_ne_true (expired.symm.trans fresh)
    next => exact again

end Fetch

/-! ## Whole runs -/

section Runs
variable {library : Json.Library} {tags : Tags}

theorem step_coheres {world : World} (coheres : Coheres library tags world) (step : Step library)
    (meets : ∀ url opts outage, step = .fetch url opts outage → Meets library tags world url opts outage) :
    Coheres library tags (world.step library tags step) := by
  intro other entry held
  cases step with
  | serve url path resource => exact coheres other entry held
  | corrupt url body unreadable =>
    by_cases same : other = url
    · subst same
      have file : (world.step library tags (.corrupt other body unreadable)).files other =
          (world.files other).map fun entry => { entry with body := body } := Function.update_self _ _ _
      have damaged := file.symm.trans held
      obtain ⟨_, _, rfl⟩ := Option.map_eq_some_iff.mp damaged
      exact fun card decoded => absurd decoded (unreadable card)
    · exact coheres other entry ((Function.update_of_ne same _ _).symm.trans held)
  | lose url =>
    by_cases same : other = url
    · subst same
      have file : (world.step library tags (.lose other)).files other = none := Function.update_self _ _ _
      exact nomatch file.symm.trans held
    · exact coheres other entry ((Function.update_of_ne same _ _).symm.trans held)
  | fetch url opts outage =>
    have sound := fetch_sound coheres (meets url opts outage rfl)
    simp only [World.step] at held ⊢
    by_cases same : other = url
    · subst same
      rw [Function.update_self, Function.update_self]
      exact sound.kept entry held
    · rw [Function.update_of_ne same, Function.update_of_ne same]
      exact coheres other entry ((sound.others other same).symm.trans held)

/-- Every fetch meets the condition at its point of the run. -/
def AllMeet (library : Json.Library) (tags : Tags) (steps : List (Step library)) : Prop :=
  ∀ before url opts outage after, steps = before ++ .fetch url opts outage :: after →
    Meets library tags (World.run library tags before) url opts outage

/-- Every fetch is answered coherently. -/
def AllCoherent (library : Json.Library) (tags : Tags) (steps : List (Step library)) : Prop :=
  ∀ before url opts outage after, steps = before ++ .fetch url opts outage :: after →
    Coherent library (World.run library tags before) url opts outage
      (fetched library tags (World.run library tags before) url opts outage).2

theorem run_append (before : List (Step library)) (step : Step library) :
    World.run library tags (before ++ [step]) = (World.run library tags before).step library tags step := by
  rw [World.run, List.foldl_append]
  rfl

theorem run_coheres {steps : List (Step library)} (meets : AllMeet library tags steps) :
    Coheres library tags (World.run library tags steps) := by
  induction steps using List.reverseRecOn with
  | nil => exact fun url entry held => nomatch held
  | append_singleton before step ih =>
    rw [run_append]
    refine step_coheres (ih fun earlier url opts outage after split => ?_) step fun url opts outage same => ?_
    · exact meets earlier url opts outage (after ++ [step]) (by rw [split, List.append_assoc, List.cons_append])
    · exact meets before url opts outage [] (by rw [same])

end Runs

/-- In every run that uses one path for the card it has of a URL, and in which no entry that cannot be read is confirmed or
raises, the answers of the cache are coherent. -/
theorem run_coherent (library : Json.Library) (tags : Tags) (steps : List (Step library)) (meets : AllMeet library tags steps) :
    AllCoherent library tags steps := by
  intro before url opts outage after split
  have earlier : AllMeet library tags before := by
    intro first url' opts' outage' rest same
    exact meets first url' opts' outage' (rest ++ .fetch url opts outage :: after)
      (by rw [split, same, List.append_assoc, List.cons_append])
  exact (fetch_sound (run_coheres earlier) (meets before url opts outage after split)).coherent

/-! ## A server with one card -/

def cardText : Bytes := utf8 "\x7b\"name\":\"a\",\"description\":\"d\",\"version\":\"1\",\"skills\":[]\x7d"

def cardJson : Json :=
  .object [("name", .string "a"), ("description", .string "d"), ("version", .string "1"), ("skills", .array [])]

def cardLibrary : Json.Library where
  decode bytes := if bytes = cardText then some cardJson else none
  encode _ := none

def hexTags : Tags where
  etag _ _ body := Base16.encode body
  strong _ _ first second same := by
    have decoded := congrArg Base16.decode same
    rwa [Base16.decode_encode, Base16.decode_encode, Option.some.injEq] at decoded

def home : String := "https://agent.example.com"

/-- The card is fetched twice within its age. -/
def twice : List (Step cardLibrary) :=
  [.serve home "/card" (some ⟨cardText, none, some "max-age=60"⟩), .fetch home { agentCardPath := "/card", now := 0 } none,
    .fetch home { agentCardPath := "/card", now := 1 } none]

theorem twice_coherent : AllCoherent cardLibrary hexTags twice := by
  refine run_coherent cardLibrary hexTags twice fun before url opts outage after split => ?_
  rcases before with _ | ⟨first, _ | ⟨second, _ | ⟨third, rest⟩⟩⟩
  · cases split
  · obtain ⟨rfl, tail⟩ := List.cons.inj split
    cases tail
    exact ⟨fun _ _ held => (nomatch held), fun _ held => (nomatch held)⟩
  · obtain ⟨rfl, tail⟩ := List.cons.inj split
    obtain ⟨rfl, tail⟩ := List.cons.inj tail
    cases tail
    refine ⟨fun _ _ _ _ foreign => absurd (by rfl) foreign, fun entry held unreadable => ?_⟩
    have card : ∃ entry card, (World.run cardLibrary hexTags (twice.take 2)).files home = some entry ∧
        decodeBody cardLibrary entry.body = .card card := ⟨_, _, by rfl, by rfl⟩
    obtain ⟨entry', card, file, decoded⟩ := card
    obtain rfl := Option.some.inj (file.symm.trans held)
    exact absurd decoded (unreadable card)
  · have longer := congrArg List.length split
    simp [twice] at longer

/-- The card at another path of the URL is asked for, where there is none. -/
def elsewhere : List (Step cardLibrary) :=
  [.serve home "/card" (some ⟨cardText, none, some "max-age=60"⟩), .fetch home { agentCardPath := "/card", now := 0 } none,
    .fetch home { agentCardPath := "/other", now := 1 } none]

theorem elsewhere_incoherent : ¬AllCoherent cardLibrary hexTags elsewhere := by
  intro coherent
  have answer : ∃ card, (fetched cardLibrary hexTags (World.run cardLibrary hexTags (elsewhere.take 2)) home
      { agentCardPath := "/other", now := 1 } none).2 = .ok card .cached := ⟨_, by rfl⟩
  obtain ⟨card, cached⟩ := answer
  have last := coherent (elsewhere.take 2) home { agentCardPath := "/other", now := 1 } none [] rfl
  rw [cached] at last
  obtain ⟨one, served, _⟩ := last
  have none : (World.run cardLibrary hexTags (elsewhere.take 2)).history home "/other" = [] := by rfl
  exact absurd (none ▸ served) List.not_mem_nil

end AshA2A.Protocol.CardCache
