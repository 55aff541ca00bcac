import NocyWalletFeed.BackgroundSubscription

/-!
# Rejected cache sessions

* `ReplacesRejected` : no run subscribes with a session whose subscription was rejected before, and the next run that
  gets a session has created it;
* `Rejected`, `ReadsSession` : the iterations in which the upstream rejects the subscription, and those that look for a
  stored session;
* `replaced_iff_of_stored` : a stored session is never replaced;
* `replacesRejected_iff` : rejected sessions are replaced exactly when no run that looks for one follows.
-/

namespace NocyWalletFeed
open Machine

/-! ## Reports -/

namespace RunReport

def session : RunReport → Option EnsuredSession
  | noSession _ => none
  | notSubscribed session _ => some session
  | subscribed session _ _ _ => some session

def subscribedWith : RunReport → Option String
  | subscribed session _ _ _ => some session.sessionId
  | _ => none

def rejectedSession : RunReport → Option String
  | subscribed session _ _ (.rejected _) => some session.sessionId
  | _ => none

end RunReport

/-- No later run subscribes with a session, and the next run that gets one has created and stored it. -/
def Replaced (sessionId : String) (later : List RunReport) : Prop :=
  (∀ report ∈ later, report.subscribedWith ≠ some sessionId) ∧
    ∀ session ∈ later.findSome? RunReport.session, session.created = true

/-- After every rejected subscription its session is replaced. -/
def ReplacesRejected : List RunReport → Prop
  | [] => True
  | report :: later =>
    (∀ sessionId ∈ report.rejectedSession, Replaced sessionId later) ∧ ReplacesRejected later

/-! ## Conditions on an iteration -/

/-- One of the attempts yields a session, and it can be stored. -/
def SessionEnv.Creates (env : SessionEnv) : Prop :=
  (∃ session, firstConnected env.attempts = some session ∧ session.1 ≠ "" ∧ session.2 ≠ "") ∧ env.storeFails = none

/-- A session is stored, or can be created. -/
def SessionEnv.Succeeds (env : SessionEnv) (s : CacheManagerState) : Prop :=
  env.queryFails = none ∧ (s.stored.isSome ∨ env.Creates)

def SubscriptionFrame.ends (f : SubscriptionFrame) : Bool :=
  f.shutdown || match f.frame with
    | .next (some _) _ => true
    | .error _ => true
    | .complete => true
    | .close => true
    | .readError _ => true
    | _ => false

def SubscriptionFrame.rejects (f : SubscriptionFrame) : Bool :=
  !f.shutdown && match f.frame with
    | .next (some _) _ => true
    | .error _ => true
    | _ => false

def RunEnv.Rejects (env : RunEnv) (s : CacheManagerState) : Prop :=
  env.session.Succeeds s ∧ env.indexFails = none ∧ env.opening.isOk = true ∧
    (env.frames.find? SubscriptionFrame.ends).any SubscriptionFrame.rejects = true

/-- The upstream rejects the subscription of the run of an iteration. -/
def Rejected (s : LoopState) (e : LoopIteration) : Prop := e.shutdownBefore = false ∧ e.run.Rejects s.manager

/-- The run of an iteration looks for a stored session. -/
def ReadsSession (e : LoopIteration) : Prop := e.shutdownBefore = false ∧ e.run.session.queryFails = none

/-! ## One run -/

section Run
variable {s : CacheManagerState}

theorem createSession_spec (env : SessionEnv) (s : CacheManagerState) :
    (env.Creates ∧ ∃ session, (createSession env s).1 = .ok session ∧
      (createSession env s).2.stored = some (session.sessionId, session.viewingKey)) ∨
    (¬ env.Creates ∧ ∃ e, (createSession env s).1 = .error e) := by
  unfold createSession SessionEnv.Creates
  cases firstConnected env.attempts with
  | none => exact Or.inr ⟨by simp, _, rfl⟩
  | some session =>
    obtain ⟨sessionId, viewingKey⟩ := session
    dsimp only
    by_cases hempty : sessionId = "" ∨ viewingKey = ""
    · rw [if_pos hempty]
      refine Or.inr ⟨?_, _, rfl⟩
      rintro ⟨⟨session, hsession, hid, hkey⟩, -⟩
      obtain rfl := Option.some.inj hsession
      exact hempty.elim hid hkey
    · rw [if_neg hempty]
      rw [not_or] at hempty
      cases env.storeFails with
      | some e => exact Or.inr ⟨by simp, _, rfl⟩
      | none =>
        refine Or.inl ⟨⟨⟨_, rfl, hempty.1, hempty.2⟩, rfl⟩, _, rfl, ?_⟩
        simp [CacheManagerState.stored, hempty.1, hempty.2]

/-- A stored session is returned as it is, wherever it is looked for. -/
theorem ensureSession_of_stored {sessionId viewingKey : String} (h : s.stored = some (sessionId, viewingKey))
    (env : SessionEnv) : (ensureSession env s).2 = s ∧
      ((env.queryFails = none ∧ (ensureSession env s).1 = .ok ⟨sessionId, viewingKey, false⟩) ∨
        (env.queryFails ≠ none ∧ ∃ e, (ensureSession env s).1 = .error e)) := by
  unfold ensureSession
  cases env.queryFails with
  | some e => exact ⟨rfl, Or.inr ⟨by simp, _, rfl⟩⟩
  | none =>
    dsimp only
    rw [h]
    exact ⟨rfl, Or.inl ⟨rfl, rfl⟩⟩

/-- A session is got where the conditions for it hold, and is the stored one afterwards. -/
theorem ensureSession_spec (env : SessionEnv) (s : CacheManagerState) :
    (env.Succeeds s ∧ ∃ session, (ensureSession env s).1 = .ok session ∧
      (ensureSession env s).2.stored = some (session.sessionId, session.viewingKey)) ∨
    (¬ env.Succeeds s ∧ ∃ e, (ensureSession env s).1 = .error e) := by
  cases hstored : s.stored with
  | some stored =>
    obtain ⟨sessionId, viewingKey⟩ := stored
    obtain ⟨hsame, hresult⟩ := ensureSession_of_stored hstored env
    rcases hresult with ⟨hquery, hok⟩ | ⟨hquery, he⟩
    · exact Or.inl ⟨⟨hquery, Or.inl (by rw [hstored]; rfl)⟩, _, hok, by rw [hsame, hstored]⟩
    · exact Or.inr ⟨fun h => hquery h.1, he⟩
  | none =>
    unfold ensureSession SessionEnv.Succeeds
    rw [hstored]
    cases env.queryFails with
    | some e => exact Or.inr ⟨by simp, _, rfl⟩
    | none =>
      rcases createSession_spec env s with ⟨hcreates, hok⟩ | ⟨hfails, he⟩
      · exact Or.inl ⟨⟨rfl, Or.inr hcreates⟩, hok⟩
      · refine Or.inr ⟨fun h => ?_, he⟩
        exact h.2.elim (by simp) hfails

theorem messageLoop_of_ends {f : SubscriptionFrame} (h : f.ends = true) (cache : MerkleCache) (updatesCached : Nat)
    (frames : List SubscriptionFrame) :
    (∃ messages, (messageLoop cache updatesCached (f :: frames)).loopEnd = .rejected messages) ↔ f.rejects = true := by
  obtain ⟨shutdown, frame, writes⟩ := f
  cases shutdown with
  | true => simp [messageLoop, SubscriptionFrame.rejects]
  | false =>
    cases frame with
    | next errors data =>
      cases errors with
      | some errors => simp [messageLoop, SubscriptionFrame.rejects]
      | none => cases h
    | error payload => simp [messageLoop, SubscriptionFrame.rejects]
    | complete => simp [messageLoop, SubscriptionFrame.rejects]
    | ping => cases h
    | ignored => cases h
    | close => simp [messageLoop, SubscriptionFrame.rejects]
    | readError message => simp [messageLoop, SubscriptionFrame.rejects]

theorem messageLoop_of_not_ends {f : SubscriptionFrame} (h : f.ends = false) (cache : MerkleCache)
    (updatesCached : Nat) (frames : List SubscriptionFrame) :
    ∃ cache' updatesCached', messageLoop cache updatesCached (f :: frames) =
      messageLoop cache' updatesCached' frames := by
  obtain ⟨shutdown, frame, writes⟩ := f
  cases shutdown with
  | true => cases h
  | false =>
    cases frame with
    | next errors data =>
      cases errors with
      | some errors => cases h
      | none =>
        cases data with
        | none => exact ⟨cache, updatesCached, rfl⟩
        | some event =>
          cases event with
          | shieldedTransactionsProgress => exact ⟨cache, updatesCached, rfl⟩
          | relevantTransaction startIndex tree =>
            cases tree with
            | none => exact ⟨cache, updatesCached, rfl⟩
            | some tree => exact ⟨_, _, rfl⟩
    | error payload => cases h
    | complete => cases h
    | ping => exact ⟨cache, updatesCached, rfl⟩
    | ignored => exact ⟨cache, updatesCached, rfl⟩
    | close => cases h
    | readError message => cases h

/-- The message loop ends with a rejection exactly where the frame at which it ends rejects the subscription. -/
theorem messageLoop_rejected_iff (cache : MerkleCache) (updatesCached : Nat) (frames : List SubscriptionFrame) :
    (∃ messages, (messageLoop cache updatesCached frames).loopEnd = .rejected messages) ↔
      (frames.find? SubscriptionFrame.ends).any SubscriptionFrame.rejects = true := by
  induction frames generalizing cache updatesCached with
  | nil => simp [messageLoop]
  | cons f frames ih =>
    by_cases hends : f.ends = true
    · rw [messageLoop_of_ends hends, List.find?_cons_of_pos hends]
      rfl
    · rw [Bool.not_eq_true] at hends
      obtain ⟨cache', updatesCached', hloop⟩ := messageLoop_of_not_ends hends cache updatesCached frames
      rw [hloop, List.find?_cons_of_neg (by simp [hends])]
      exact ih cache' updatesCached'

theorem runSubscription_of_stored {sessionId viewingKey : String} (h : s.stored = some (sessionId, viewingKey))
    (env : RunEnv) : (runSubscription env s).2.stored = some (sessionId, viewingKey) ∧
      ((env.session.queryFails = none ∧ (runSubscription env s).1.session = some ⟨sessionId, viewingKey, false⟩) ∨
        (env.session.queryFails ≠ none ∧ ∃ e, (runSubscription env s).1 = .noSession e)) := by
  obtain ⟨hsame, hresult⟩ := ensureSession_of_stored h env.session
  unfold runSubscription
  generalize ensureSession env.session s = ensured at hsame hresult
  obtain ⟨result, s'⟩ := ensured
  dsimp only at hsame hresult
  subst hsame
  rcases hresult with ⟨hquery, rfl⟩ | ⟨hquery, e, rfl⟩
  · dsimp only
    cases env.indexFails with
    | some e => exact ⟨h, Or.inl ⟨hquery, rfl⟩⟩
    | none =>
      cases env.opening with
      | error e => exact ⟨h, Or.inl ⟨hquery, rfl⟩⟩
      | ok _ => exact ⟨h, Or.inl ⟨hquery, rfl⟩⟩
  · exact ⟨h, Or.inr ⟨hquery, e, rfl⟩⟩

theorem runSubscription_rejected (env : RunEnv) (s : CacheManagerState) :
    (env.Rejects s ∧ ∃ sessionId viewingKey, (runSubscription env s).1.rejectedSession = some sessionId ∧
      (runSubscription env s).2.stored = some (sessionId, viewingKey)) ∨
    (¬ env.Rejects s ∧ (runSubscription env s).1.rejectedSession = none) := by
  have hspec := ensureSession_spec env.session s
  unfold runSubscription RunEnv.Rejects
  generalize ensureSession env.session s = ensured at hspec
  obtain ⟨result, s'⟩ := ensured
  rcases hspec with ⟨hsucceeds, session, hresult, hstored⟩ | ⟨hfails, e, hresult⟩
  · dsimp only at hresult hstored
    subst hresult
    dsimp only
    cases env.indexFails with
    | some e => exact Or.inr ⟨by simp, rfl⟩
    | none =>
      cases env.opening with
      | error e => exact Or.inr ⟨by simp [Except.isOk, Except.toBool], rfl⟩
      | ok _ =>
        dsimp only
        rw [← messageLoop_rejected_iff s'.cache 0 env.frames]
        cases hend : (messageLoop s'.cache 0 env.frames).loopEnd with
        | rejected messages => exact Or.inl ⟨⟨hsucceeds, rfl, rfl, messages, rfl⟩, _, _, rfl, hstored⟩
        | ended reason => exact Or.inr ⟨by simp, rfl⟩
        | readFailed message => exact Or.inr ⟨by simp, rfl⟩
  · dsimp only at hresult
    subst hresult
    exact Or.inr ⟨fun h => hfails h.1, rfl⟩

end Run

/-! ## The loop -/

/-- An iteration: the loop ends, or makes one run and ends or goes on with what the run has left. -/
theorem subscriptionStep_cases (s : LoopState) (e : LoopIteration) :
    (e.shutdownBefore = true ∧ subscriptionStep s e = ([], .halt ())) ∨
      (e.shutdownBefore = false ∧
        (subscriptionStep s e).1.filterMap LoopAction.report = [(runSubscription e.run s.manager).1] ∧
        ((subscriptionStep s e).2 = .halt () ∨
          ∃ s', (subscriptionStep s e).2 = .next s' ∧ s'.manager = (runSubscription e.run s.manager).2)) := by
  unfold subscriptionStep
  cases e.shutdownBefore with
  | true => exact Or.inl ⟨rfl, rfl⟩
  | false =>
    refine Or.inr ⟨rfl, ?_⟩
    rw [if_neg Bool.false_ne_true]
    dsimp only
    cases (runSubscription e.run s.manager).1.result with
    | ok outcome =>
      dsimp only
      split_ifs
      · exact ⟨rfl, Or.inl rfl⟩
      · exact ⟨rfl, Or.inr ⟨_, rfl, rfl⟩⟩
      · exact ⟨rfl, Or.inr ⟨_, rfl, rfl⟩⟩
    | error e =>
      dsimp only
      split_ifs
      · exact ⟨rfl, Or.inl rfl⟩
      · exact ⟨rfl, Or.inr ⟨_, rfl, rfl⟩⟩

theorem runReports_cons (v : Visit LoopState LoopIteration LoopAction)
    (loop : List (Visit LoopState LoopIteration LoopAction)) :
    runReports (v :: loop) = v.output.filterMap LoopAction.report ++ runReports loop := by
  rw [runReports, outputs_cons, List.filterMap_append]
  rfl

theorem subscriptionLoop_cons (s : LoopState) (e : LoopIteration) (iterations : List LoopIteration) :
    (e.shutdownBefore = true ∧ subscriptionLoop s (e :: iterations) = [visit subscriptionStep s e] ∧
        runReports (subscriptionLoop s (e :: iterations)) = []) ∨
      (e.shutdownBefore = false ∧ ∃ rest, subscriptionLoop s (e :: iterations) = visit subscriptionStep s e :: rest ∧
        runReports (subscriptionLoop s (e :: iterations)) =
          (runSubscription e.run s.manager).1 :: runReports rest ∧
        (rest = [] ∨ ∃ s', s'.manager = (runSubscription e.run s.manager).2 ∧
          rest = subscriptionLoop s' iterations)) := by
  unfold subscriptionLoop
  rcases subscriptionStep_cases s e with ⟨hshutdown, hstep⟩ | ⟨hshutdown, houtput, hhalt | ⟨s', hnext, hmanager⟩⟩
  · rw [visits_cons_halt iterations (congrArg Prod.snd hstep)]
    refine Or.inl ⟨hshutdown, rfl, ?_⟩
    rw [runReports_cons, visit_output, hstep]
    rfl
  · rw [visits_cons_halt iterations hhalt]
    refine Or.inr ⟨hshutdown, [], rfl, ?_, Or.inl rfl⟩
    rw [runReports_cons, visit_output, houtput]
    rfl
  · rw [visits_cons_next iterations hnext]
    refine Or.inr ⟨hshutdown, _, rfl, ?_, Or.inr ⟨s', hmanager, rfl⟩⟩
    rw [runReports_cons, visit_output, houtput]
    rfl

/-- **A stored session is never replaced**: what is asked of the later runs holds exactly where none of them looks for
it. -/
theorem replaced_iff_of_stored {s : LoopState} {sessionId viewingKey : String}
    (h : s.manager.stored = some (sessionId, viewingKey)) (iterations : List LoopIteration) :
    Replaced sessionId (runReports (subscriptionLoop s iterations)) ↔
      ∀ v ∈ subscriptionLoop s iterations, ¬ ReadsSession v.input := by
  induction iterations generalizing s with
  | nil => simp [subscriptionLoop, runReports, Replaced]
  | cons e iterations ih =>
    obtain ⟨hkept, hreport⟩ := runSubscription_of_stored h e.run
    rcases subscriptionLoop_cons s e iterations with ⟨hshutdown, hloop, hruns⟩ | ⟨hshutdown, rest, hloop, hruns, hrest⟩
    · rw [hruns, hloop]
      simp [Replaced, ReadsSession, hshutdown]
    · rw [hruns, hloop, List.forall_mem_cons]
      rcases hreport with ⟨hquery, hsession⟩ | ⟨hquery, e', hreport⟩
      · -- the run gets the stored session, which it has not created
        refine iff_of_false (fun hreplaced => ?_) (fun hnone => hnone.1 ⟨hshutdown, hquery⟩)
        have hcreated := hreplaced.2 ⟨sessionId, viewingKey, false⟩ (by rw [List.findSome?_cons, hsession]; rfl)
        cases hcreated
      · have hiff : Replaced sessionId (runReports rest) ↔ ∀ v ∈ rest, ¬ ReadsSession v.input := by
          rcases hrest with rfl | ⟨s', hmanager, rfl⟩
          · simp [runReports, Replaced]
          · exact ih (hmanager ▸ hkept)
        have hskip : ¬ ReadsSession (visit subscriptionStep s e).input := fun hreads => hquery hreads.2
        rw [and_iff_right hskip, ← hiff, hreport]
        unfold Replaced
        rw [List.forall_mem_cons, List.findSome?_cons]
        exact and_congr_left' (and_iff_right (by simp [RunReport.subscribedWith]))

/-- **Rejected cache sessions.** In a run of the loop rejected sessions are replaced exactly when no iteration after a
rejected subscription looks for a stored session. -/
theorem replacesRejected_iff (s : LoopState) (iterations : List LoopIteration) :
    ReplacesRejected (runReports (subscriptionLoop s iterations)) ↔
      (subscriptionLoop s iterations).Pairwise fun v v' => Rejected v.before v.input → ¬ ReadsSession v'.input := by
  induction iterations generalizing s with
  | nil => simp [subscriptionLoop, runReports, ReplacesRejected]
  | cons e iterations ih =>
    rcases subscriptionLoop_cons s e iterations with ⟨hshutdown, hloop, hruns⟩ | ⟨hshutdown, rest, hloop, hruns, hrest⟩
    · rw [hruns, hloop]
      exact iff_of_true trivial (List.pairwise_singleton _ _)
    · rw [hruns, hloop, List.pairwise_cons]
      have hiff : ReplacesRejected (runReports rest) ↔
          rest.Pairwise fun v v' => Rejected v.before v.input → ¬ ReadsSession v'.input := by
        rcases hrest with rfl | ⟨s', -, rfl⟩
        · exact iff_of_true trivial List.Pairwise.nil
        · exact ih s'
      refine and_congr ?_ hiff
      rcases runSubscription_rejected e.run s.manager with ⟨hrejects, sessionId, viewingKey, hreport, hstored⟩ |
        ⟨hrejects, hreport⟩
      · have hreplaced : Replaced sessionId (runReports rest) ↔ ∀ v ∈ rest, ¬ ReadsSession v.input := by
          rcases hrest with rfl | ⟨s', hmanager, rfl⟩
          · simp [runReports, Replaced]
          · exact replaced_iff_of_stored (hmanager ▸ hstored) iterations
        rw [hreport]
        constructor
        · intro h v hv _
          exact hreplaced.mp (h sessionId rfl) v hv
        · intro h id hid
          obtain rfl := Option.some.inj hid
          exact hreplaced.mpr fun v hv => h v hv ⟨hshutdown, hrejects⟩
      · rw [hreport]
        exact iff_of_true (fun sessionId h => by cases h) fun v hv hrejected => absurd hrejected.2 hrejects

namespace Sample

/-- An iteration in which the upstream, which has no session "a" any more, rejects the subscription. -/
def rejectedIteration : LoopIteration :=
  { shutdownBefore := false
    run :=
      { session := ⟨none, fun _ => ("key", .response (some "b") none), none⟩
        indexFails := none
        opening := .ok ()
        frames := [⟨false, .error ["Session not found"], 0⟩] }
    shutdownAfter := false }

def storedSession : LoopState := .initial ⟨some "a", some "key", .empty⟩

end Sample

/-- The second run subscribes with the session that was rejected in the first. -/
theorem rejectedSession_not_replaced :
    ¬ ReplacesRejected (runReports (subscriptionLoop Sample.storedSession
      [Sample.rejectedIteration, Sample.rejectedIteration])) := by
  have hruns : runReports (subscriptionLoop Sample.storedSession [Sample.rejectedIteration, Sample.rejectedIteration]) =
      [.subscribed ⟨"a", "key", false⟩ 0 0 (.rejected ["Session not found"]),
        .subscribed ⟨"a", "key", false⟩ 0 0 (.rejected ["Session not found"])] := by decide
  rw [hruns]
  intro h
  exact (h.1 "a" rfl).1 _ List.mem_cons_self rfl

end NocyWalletFeed
