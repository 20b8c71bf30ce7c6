import SeaTunnel.Kafka.Sink

namespace SeaTunnel.Kafka.TopicRouting

open Lib Lib.Text Fallible Connectors.SinkClient Connectors.RowText Formats.CanalClient Sink

variable {F V D : Type}

section Model

def resolve (router : TopicRouter) (origin : Option String) :
    Except String (List String) × TopicRouter :=
  match router.resolveAll origin with
  | .error e => (.error e, router)
  | .ok (topics, router) => (.ok topics, router)

def after (router : TopicRouter) (origins : List (Option String)) : TopicRouter :=
  origins.foldl (fun router origin ↦ (resolve router origin).2) router

def resolutions (router : TopicRouter) : List (Option String) → List (Except String (List String))
  | [] => []
  | origin :: origins =>
    (resolve router origin).1 :: resolutions (resolve router origin).2 origins

def takeOrClone {α : Type} (isLast : Bool) (value : Option α) : Option (α × Option α) :=
  value.map fun a ↦ (a, if isLast then none else some a)

/-- The loop over the topics, `none` where a value is unwrapped that has been moved. -/
def pushDeliveries (lastIdx : ℕ) : ℕ → List String → Option String → Option (Payload V) →
    List (InFlightDelivery V) → Option (List (InFlightDelivery V))
  | _, [], _, _, inFlight => some inFlight
  | i, topic :: topics, key, payload, inFlight =>
    (takeOrClone (i = lastIdx) key).bind fun k ↦
      (takeOrClone (i = lastIdx) payload).bind fun p ↦
        pushDeliveries lastIdx (i + 1) topics k.2 p.2 (inFlight ++ [{ topic, key := k.1, payload := p.1 }])

def fanoutDelivery (router : TopicRouter) (inFlight : List (InFlightDelivery V)) (origin : Option String)
    (key : String) (payload : Payload V) : Option (Except String ℕ × TopicRouter × List (InFlightDelivery V)) :=
  match router.resolveAll origin with
  | .error e => some (.error ("topic routing: " ++ e), router, inFlight)
  | .ok (topics, router) =>
    (pushDeliveries (topics.length - 1) 0 topics (some key) (some payload) inFlight).map fun inFlight ↦
      (.ok topics.length, router, inFlight)

end Model

section Property

def Mentions (topic : String) : Prop :=
  "$\x7btable\x7d".toList <:+: topic.toList ∨ "$\x7bdatabase\x7d".toList <:+: topic.toList

/-- What is before the last dot of an identifier and what is behind it; without a dot there is no database. -/
def Parts (identifier database table : String) : Prop :=
  '.' ∉ table.toList ∧ (identifier = database ++ "." ++ table ∨ identifier = table ∧ database = "")

/-- A topic with the database in the place of its placeholder, and then the table in the place of its. -/
def Renders (topic identifier : String) : Except String String → Prop
  | .ok text => ∃ database table middle, Parts identifier database table ∧
      (Mentions topic → database ≠ "" ∧ table ≠ "") ∧
      Replaced "$\x7bdatabase\x7d".toList database.toList topic.toList middle ∧
      Replaced "$\x7btable\x7d".toList table.toList middle text.toList
  | .error _ => ∃ database table, Parts identifier database table ∧ Mentions topic ∧ (database = "" ∨ table = "")

/-- Where a row of the origin goes: to the topics of the matching routes as they are
rendered, each of them once, and where no route matches to the one default topic. -/
inductive GoesTo (routes : List TopicRoute) (defaultTopic : String) :
    Option String → Except String (List String) → Prop
  | routed {identifier : String} {texts : List String} (hany : ∃ route ∈ routes, route.isMatch identifier = true)
      (htexts : List.Forall₂ (fun route text ↦ Renders route.topic identifier (.ok text))
        (routes.filter (·.isMatch identifier)) texts) :
      GoesTo routes defaultTopic (some identifier) (.ok texts.eraseDups)
  | unrendered {identifier e : String} {route : TopicRoute} (hroute : route ∈ routes)
      (hmatch : route.isMatch identifier = true) (herror : Renders route.topic identifier (.error e)) :
      GoesTo routes defaultTopic (some identifier) (.error e)
  | plain {origin : Option String} (hnone : ∀ identifier ∈ origin, ∀ route ∈ routes, route.isMatch identifier = false)
      (hplain : ¬Mentions defaultTopic) : GoesTo routes defaultTopic origin (.ok [defaultTopic])
  | rendered {identifier text : String} (hnone : ∀ route ∈ routes, route.isMatch identifier = false)
      (hmentions : Mentions defaultTopic) (htext : Renders defaultTopic identifier (.ok text)) :
      GoesTo routes defaultTopic (some identifier) (.ok [text])
  | unrenderedDefault {identifier e : String} (hnone : ∀ route ∈ routes, route.isMatch identifier = false)
      (hmentions : Mentions defaultTopic) (herror : Renders defaultTopic identifier (.error e)) :
      GoesTo routes defaultTopic (some identifier) (.error e)
  | nowhere (e : String) (hmentions : Mentions defaultTopic) : GoesTo routes defaultTopic none (.error e)

def copies (key : String) (payload : Payload V) (topics : List String) : List (InFlightDelivery V) :=
  topics.map fun topic ↦ { topic, key, payload }

end Property

section Resolution

variable {router : TopicRouter} {identifier : String} {origin : Option String}

theorem removeAll_concat (as bs : List String) (b : String) :
    as.removeAll (bs ++ [b]) = (as.removeAll bs).filter fun a ↦ !a == b := by
  rw [List.removeAll, List.removeAll, List.filter_filter]
  refine List.filter_congr fun a _ ↦ ?_
  by_cases heq : a = b
  · simp [heq]
  · simp [heq]

theorem matchedTopics_eq (identifier : String) (routes : List TopicRoute) (topics : List String) :
    TopicRouter.matchedTopics identifier routes topics =
      ((routes.filter (·.isMatch identifier)).mapM fun route ↦ renderTopic route.topic identifier).map fun rendered ↦
        topics ++ (rendered.removeAll topics).eraseDups := by
  induction routes generalizing topics with
  | nil =>
    change Except.ok topics = Except.ok (topics ++ [])
    rw [List.append_nil]
  | cons route routes ih =>
    rw [TopicRouter.matchedTopics]
    split_ifs with hmatch
    · have hfilter : (route :: routes).filter (·.isMatch identifier) = route :: routes.filter (·.isMatch identifier) :=
        List.filter_cons_of_pos hmatch
      rw [hfilter, List.mapM_cons]
      cases hrender : renderTopic route.topic identifier with
      | error e => rfl
      | ok topic =>
        dsimp only
        rw [ih]
        cases (routes.filter (·.isMatch identifier)).mapM fun route ↦ renderTopic route.topic identifier with
        | error e => rfl
        | ok rendered =>
          refine congrArg Except.ok ?_
          by_cases hmem : topic ∈ topics
          · have hskip : (topic :: rendered).removeAll topics = rendered.removeAll topics := by
              rw [List.removeAll, List.filter_cons_of_neg (by simpa using hmem)]
              rfl
            rw [if_pos hmem]
            dsimp only
            rw [hskip]
          · have hkeep : (topic :: rendered).removeAll topics = topic :: rendered.removeAll topics := by
              rw [List.removeAll, List.filter_cons_of_pos (by simpa using hmem)]
              rfl
            rw [if_neg hmem]
            dsimp only
            rw [hkeep, List.eraseDups_cons, removeAll_concat, List.append_assoc]
            rfl
    · have hfilter : (route :: routes).filter (·.isMatch identifier) = routes.filter (·.isMatch identifier) :=
        List.filter_cons_of_neg hmatch
      rw [hfilter]
      exact ih topics

theorem parts_splitTableIdentifier (identifier : String) :
    Parts identifier (splitTableIdentifier identifier).1 (splitTableIdentifier identifier).2 := by
  have hsplit := rsplitOnce_singleton '.' identifier.toList
  rw [splitTableIdentifier]
  cases hparts : rsplitOnce ['.'] identifier.toList with
  | some parts =>
    rw [hparts] at hsplit
    obtain ⟨hall, hback⟩ := hsplit
    refine ⟨by rwa [String.toList_ofList], .inl (String.toList_inj.mp ?_)⟩
    simp only [String.toList_append, String.toList_ofList]
    exact hall.trans (List.append_assoc parts.1 ['.'] parts.2).symm
  | none =>
    rw [hparts] at hsplit
    exact ⟨hsplit, .inr ⟨rfl, rfl⟩⟩

theorem topicHasPlaceholders_iff (topic : String) : topicHasPlaceholders topic = true ↔ Mentions topic :=
  decide_eq_true_iff

theorem toList_replace (text pattern replacement : String) :
    (replace text pattern replacement).toList = replaceFrom pattern.toList replacement.toList 0 text.toList :=
  String.toList_ofList

theorem renders_renderTopic (topic identifier : String) : Renders topic identifier (renderTopic topic identifier) := by
  have hparts := parts_splitTableIdentifier identifier
  rw [renderTopic]
  dsimp only
  split_ifs with hlacks <;> rw [topicHasPlaceholders_iff] at hlacks
  · exact ⟨_, _, hparts, hlacks⟩
  · have hdatabase : databasePlaceholder.toList ≠ [] := by simp [databasePlaceholder]
    have htable : tablePlaceholder.toList ≠ [] := by simp [tablePlaceholder]
    refine ⟨_, _, _, hparts, fun hmentions ↦ not_or.mp fun hempty ↦ hlacks ⟨hmentions, hempty⟩,
      replaced_replaceFrom hdatabase _ _, ?_⟩
    rw [toList_replace, toList_replace]
    exact replaced_replaceFrom htable _ _

theorem forall₂_of_mapM {α β : Type} {f : α → Except String β} {as : List α} {bs : List β}
    (h : as.mapM f = .ok bs) : List.Forall₂ (fun a b ↦ f a = .ok b) as bs := by
  induction as generalizing bs with
  | nil =>
    obtain rfl := Except.ok.inj h
    exact .nil
  | cons a as ih =>
    rw [List.mapM_cons] at h
    obtain ⟨b, hb, h⟩ := ok_of_bind h
    obtain ⟨bs', hbs, h⟩ := ok_of_bind h
    obtain rfl := Except.ok.inj h
    exact .cons hb (ih hbs)

theorem exists_of_mapM {α β : Type} {f : α → Except String β} {as : List α} {e : String}
    (h : as.mapM f = .error e) : ∃ a ∈ as, f a = .error e := by
  induction as with
  | nil => cases h
  | cons a as ih =>
    rw [List.mapM_cons] at h
    cases hhead : f a with
    | error e' =>
      rw [hhead] at h
      have hsame : (.error e' : Except String (List β)) = .error e := h
      exact ⟨a, List.mem_cons_self, Except.error.inj hsame ▸ hhead⟩
    | ok b =>
      cases htail : as.mapM f with
      | error e' =>
        rw [hhead, htail] at h
        have hsame : (.error e' : Except String (List β)) = .error e := h
        obtain ⟨a', hmem, ha'⟩ := ih (Except.error.inj hsame ▸ htail)
        exact ⟨a', List.mem_cons_of_mem a hmem, ha'⟩
      | ok bs =>
        rw [hhead, htail] at h
        cases h

theorem goesTo_defaultTopics (router : TopicRouter) (origin : Option String)
    (hnone : ∀ identifier ∈ origin, ∀ route ∈ router.routes, route.isMatch identifier = false) :
    GoesTo router.routes router.defaultTopic origin (router.defaultTopics origin) := by
  unfold TopicRouter.defaultTopics
  split_ifs with hmentions
  · rw [topicHasPlaceholders_iff] at hmentions
    cases origin with
    | none => exact .nowhere _ hmentions
    | some identifier =>
      have hrenders := renders_renderTopic router.defaultTopic identifier
      dsimp only
      cases hrender : renderTopic router.defaultTopic identifier with
      | error e => exact .unrenderedDefault (hnone identifier rfl) hmentions (hrender ▸ hrenders)
      | ok text => exact .rendered (hnone identifier rfl) hmentions (hrender ▸ hrenders)
  · exact .plain hnone fun h ↦ hmentions ((topicHasPlaceholders_iff _).mpr h)

theorem goesTo_resolveUncached (router : TopicRouter) (origin : Option String) :
    GoesTo router.routes router.defaultTopic origin (router.resolveUncached origin) := by
  cases origin with
  | none => exact goesTo_defaultTopics router none nofun
  | some identifier =>
    rw [TopicRouter.resolveUncached, matchedTopics_eq]
    cases hrendered : (router.routes.filter (·.isMatch identifier)).mapM
        fun route ↦ renderTopic route.topic identifier with
    | error e =>
      obtain ⟨route, hmem, herror⟩ := exists_of_mapM hrendered
      obtain ⟨hroute, hmatch⟩ := List.mem_filter.mp hmem
      exact .unrendered hroute hmatch (herror ▸ renders_renderTopic route.topic identifier)
    | ok texts =>
      have htexts := forall₂_of_mapM hrendered
      have hall : texts.removeAll [] = texts := List.filter_eq_self.mpr fun _ _ ↦ rfl
      rw [Except.map, hall, List.nil_append]
      cases texts with
      | nil =>
        have hnone := List.forall₂_nil_right_iff.mp htexts
        refine goesTo_defaultTopics router _ fun identifier' hidentifier route hroute ↦ ?_
        obtain rfl := Option.some.inj hidentifier
        exact Bool.eq_false_iff.mpr (List.filter_eq_nil_iff.mp hnone route hroute)
      | cons text texts =>
        have hany : ∃ route ∈ router.routes, route.isMatch identifier = true := by
          obtain ⟨route, rest, -, -, hfilter⟩ := List.forall₂_cons_right_iff.mp htexts
          exact ⟨route, List.mem_filter.mp (hfilter ▸ List.mem_cons_self)⟩
        have hrouted : GoesTo router.routes router.defaultTopic _ _ := .routed hany
          (htexts.imp fun route text htext ↦ htext ▸ renders_renderTopic route.topic identifier)
        rw [List.eraseDups_cons] at hrouted ⊢
        exact hrouted

structure Cached (fresh router : TopicRouter) : Prop where
  routes : router.routes = fresh.routes
  defaultTopic : router.defaultTopic = fresh.defaultTopic
  entries : ∀ identifier topics, router.cache.lookup identifier = some topics →
    fresh.resolveUncached (some identifier) = .ok topics

theorem Cached.uncached {fresh : TopicRouter} (h : Cached fresh router) (origin : Option String) :
    router.resolveUncached origin = fresh.resolveUncached origin := by
  have hsame : { router with cache := fresh.cache } = fresh := by rw [h.routes, h.defaultTopic]
  calc router.resolveUncached origin
      = TopicRouter.resolveUncached { router with cache := fresh.cache } origin := rfl
    _ = fresh.resolveUncached origin := by rw [hsame]

theorem Cached.step {fresh : TopicRouter} (h : Cached fresh router) (origin : Option String) :
    (resolve router origin).1 = fresh.resolveUncached origin ∧
      Cached fresh (resolve router origin).2 := by
  cases origin with
  | none =>
    rw [← h.uncached, resolve, TopicRouter.resolveAll]
    cases router.resolveUncached none with
    | error e => exact ⟨rfl, h⟩
    | ok topics => exact ⟨rfl, h⟩
  | some identifier =>
    rw [resolve, TopicRouter.resolveAll]
    cases hcached : router.cache.lookup identifier with
    | some topics => exact ⟨(h.entries identifier topics hcached).symm, h⟩
    | none =>
      rw [h.uncached]
      cases hresolved : fresh.resolveUncached (some identifier) with
      | error e => exact ⟨rfl, h⟩
      | ok topics =>
        refine ⟨rfl, h.routes, h.defaultTopic, fun key found hfound ↦ ?_⟩
        by_cases heq : key = identifier
        · subst heq
          change (AList.insert key topics router.cache).lookup key = some found at hfound
          rw [AList.lookup_insert] at hfound
          rw [hresolved, Option.some.inj hfound]
        · change (AList.insert identifier topics router.cache).lookup key = some found at hfound
          rw [AList.lookup_insert_ne heq] at hfound
          exact h.entries key found hfound

theorem Cached.run {fresh : TopicRouter} (h : Cached fresh router) (origins : List (Option String)) :
    Cached fresh (after router origins) := by
  induction origins generalizing router with
  | nil => exact h
  | cons origin origins ih => exact ih (h.step origin).2

theorem Cached.results {fresh : TopicRouter} (h : Cached fresh router) (origins : List (Option String)) :
    resolutions router origins = origins.map fresh.resolveUncached := by
  induction origins generalizing router with
  | nil => rfl
  | cons origin origins ih =>
    rw [resolutions, (h.step origin).1, ih (h.step origin).2, List.map_cons]

theorem cached_new (routes : List TopicRoute) (defaultTopic : String) :
    Cached { routes, defaultTopic } { routes, defaultTopic } := ⟨rfl, rfl, fun _ _ h ↦ nomatch h⟩

end Resolution

section Deliveries

variable {key : String} {payload : Payload V}

theorem pushDeliveries_eq (lastIdx i : ℕ) (topics : List String) (inFlight : List (InFlightDelivery V))
    (hlast : topics ≠ [] → i + topics.length = lastIdx + 1) :
    pushDeliveries lastIdx i topics (some key) (some payload) inFlight = some (inFlight ++ copies key payload topics) := by
  induction topics generalizing i inFlight with
  | nil =>
    rw [pushDeliveries, copies, List.map_nil, List.append_nil]
  | cons topic topics ih =>
    have hlen := hlast (List.cons_ne_nil topic topics)
    rw [List.length_cons] at hlen
    have hqueue : inFlight ++ copies key payload (topic :: topics) =
        inFlight ++ [⟨topic, key, payload⟩] ++ copies key payload topics := by
      rw [List.append_assoc]
      rfl
    rw [pushDeliveries, hqueue]
    cases topics with
    | nil =>
      rw [copies, List.map_nil, List.append_nil]
      rfl
    | cons next topics =>
      have hne : i ≠ lastIdx := by
        rw [List.length_cons] at hlen
        omega
      rw [decide_eq_false hne]
      exact ih (i + 1) _ fun _ ↦ by omega

theorem fanoutDelivery_eq (router : TopicRouter) (inFlight : List (InFlightDelivery V)) (origin : Option String)
    (key : String) (payload : Payload V) : fanoutDelivery router inFlight origin key payload =
      some (match resolve router origin with
        | (.error e, router) => (.error ("topic routing: " ++ e), router, inFlight)
        | (.ok topics, router) => (.ok topics.length, router, inFlight ++ copies key payload topics)) := by
  rw [fanoutDelivery, resolve]
  rcases router.resolveAll origin with e | ⟨topics, router'⟩
  · rfl
  · have hlast : topics ≠ [] → 0 + topics.length = topics.length - 1 + 1 := by
      intro hne
      have hpos := List.length_pos_iff.mpr hne
      omega
    dsimp only
    rw [pushDeliveries_eq _ _ _ _ hlast]
    rfl

theorem each_pushDelivery (topics : List String) (s : Client (KafkaSinkWriter F V) D (SinkEvent F V)) :
    each (pushDelivery payload key) topics s =
      (.ok (), { s with
        self := { s.self with inFlight := s.self.inFlight ++ copies key payload topics }
        history := s.history ++ (copies key payload topics).map .enqueued }) := by
  induction topics generalizing s with
  | nil => simp [each, copies, pure]
  | cons topic topics ih =>
    have hpush : pushDelivery payload key topic s =
        (.ok (), { s with
          self := { s.self with inFlight := s.self.inFlight ++ [⟨topic, key, payload⟩] }
          history := s.history ++ [.enqueued ⟨topic, key, payload⟩] }) := rfl
    rw [each, bind_ok hpush, ih]
    simp [copies]

/-- The call of the writer, and its loop with the values that are moved. -/
theorem fanoutDelivery_sink (s : Client (KafkaSinkWriter F V) D (SinkEvent F V)) (origin : Option String) :
    match fanoutDelivery s.self.topicRouter s.self.inFlight origin key payload with
    | none => False
    | some (.error e, _, _) => Sink.fanoutDelivery origin key payload s = (.error e, s)
    | some (.ok _, topicRouter, inFlight) => ∃ history,
        Sink.fanoutDelivery origin key payload s =
          (.ok (), { s with self := { s.self with topicRouter, inFlight }, history }) := by
  rw [fanoutDelivery_eq, resolve]
  cases hresolve : s.self.topicRouter.resolveAll origin with
  | error e =>
    dsimp only
    rw [Sink.fanoutDelivery, get_bind, hresolve]
    rfl
  | ok resolved =>
    refine ⟨s.history ++ (copies key payload resolved.1).map .enqueued, ?_⟩
    rw [Sink.fanoutDelivery, get_bind, hresolve]
    exact each_pushDelivery resolved.1 _

/-- The cache changes nothing, and a message goes once to each of its topics. -/
theorem routes_exactly (routes : List TopicRoute) (defaultTopic : String) (origins : List (Option String)) :
    let router := after { routes, defaultTopic } origins
    resolutions { routes, defaultTopic } origins =
        origins.map (TopicRouter.resolveUncached { routes, defaultTopic }) ∧
      (∀ identifier topics, router.cache.lookup identifier = some topics →
        TopicRouter.resolveUncached { routes, defaultTopic } (some identifier) = .ok topics) ∧
      ∀ (inFlight : List (InFlightDelivery V)) (origin : Option String) (key : String) (payload : Payload V),
        ∃ answer, GoesTo routes defaultTopic origin answer ∧
          fanoutDelivery router inFlight origin key payload = some (match answer with
            | .error e => (.error ("topic routing: " ++ e), router, inFlight)
            | .ok topics => (.ok topics.length, after { routes, defaultTopic } (origins ++ [origin]),
                inFlight ++ copies key payload topics)) := by
  intro router
  have hcached := (cached_new routes defaultTopic).run origins
  refine ⟨(cached_new routes defaultTopic).results origins, hcached.entries, fun inFlight origin key payload ↦ ?_⟩
  refine ⟨_, goesTo_resolveUncached { routes, defaultTopic } origin, ?_⟩
  have hresolved := (hcached.step origin).1
  have hafter : after { routes, defaultTopic } (origins ++ [origin]) =
      (resolve router origin).2 := List.foldl_append
  rw [fanoutDelivery_eq, ← hresolved, hafter]
  rw [resolve]
  rcases router.resolveAll origin with e | ⟨topics, router'⟩
  · rfl
  · rfl

end Deliveries

end SeaTunnel.Kafka.TopicRouting
