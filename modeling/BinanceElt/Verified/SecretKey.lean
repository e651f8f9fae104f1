import BinanceElt.Verified.Retries

/-!
# What the secret key is used for

The secret key of the account is read in every invocation, also in those that sign
nothing.  It leaves the function as the key of the signature and in no other way: with
another key, and signatures that happen to be the same, an invocation makes the same
calls and ends in the same way.

## Main results

* `rekeys_binanceHelper_init` — the set-up with another key.
* `secretKey_only_signs` — the invocation with another key.
-/

namespace BinanceElt

open Python (Json PyError)
open Service (Event)
open Service.Program

/-! ## Another key -/

/-- A call for a secret. -/
def Call.IsSecret : Call → Prop
  | .getSecretValue _ _ => True
  | _ => False

/-- A secret with another value under `secret_key`, if it has one. -/
def withSecretKey (key : String) (secret : Dict) : Dict :=
  secret.map fun item => if item.1 = "secret_key" then (item.1, key) else item

theorem getItem_withSecretKey (key : String) (secret : Dict) :
    Dict.getItem (withSecretKey key secret) "secret_key" =
      (Dict.getItem secret "secret_key").map fun _ => key := by
  rw [Dict.getItem, Dict.getItem]
  induction secret with
  | nil => rfl
  | cons item secret ih =>
      obtain ⟨name, value⟩ := item
      by_cases hname : name = "secret_key"
      · simp [withSecretKey, hname, Except.map]
      · have hne : ("secret_key" == name) = false := by simpa using Ne.symm hname
        simp only [withSecretKey, List.map_cons, hname, if_false, List.lookup_cons, hne]
        exact ih

theorem getItem_withSecretKey_of_ne (key : String) (secret : Dict) {name : String}
    (h : name ≠ "secret_key") :
    Dict.getItem (withSecretKey key secret) name = Dict.getItem secret name := by
  have hlookup : (withSecretKey key secret).lookup name = secret.lookup name := by
    induction secret with
    | nil => rfl
    | cons item secret ih =>
        obtain ⟨other, value⟩ := item
        by_cases hother : other = "secret_key"
        · obtain rfl := hother
          have hne : (name == "secret_key") = false := by simpa using h
          simp only [withSecretKey, List.map_cons, if_true, List.lookup_cons, hne]
          exact ih
        · simp only [withSecretKey, List.map_cons, hother, if_false, List.lookup_cons] at ih ⊢
          rw [ih]
  rw [Dict.getItem, Dict.getItem, hlookup]

/-- The events of a run, with another secret key in the first secret that was
read. -/
def rekey (key : String) : List (Event Ans) → List (Event Ans)
  | [] => []
  | ⟨.getSecretValue region secretId, secret⟩ :: es =>
      let secret : Except PyError Dict := secret
      ⟨.getSecretValue region secretId, secret.map (withSecretKey key)⟩ :: es
  | e :: es => e :: rekey key es

section Rekey

variable {key : String} {es es' : List (Event Ans)}

theorem rekey_cons {e : Event Ans} (h : ¬ e.call.IsSecret) :
    rekey key (e :: es) = e :: rekey key es := by
  obtain ⟨c, a⟩ := e
  cases c <;> first | rfl | exact absurd trivial h

theorem rekey_append_of_quiet (h : ∀ e ∈ es, ¬ e.call.IsSecret) :
    rekey key (es ++ es') = es ++ rekey key es' := by
  induction es with
  | nil => rfl
  | cons e es ih =>
      rw [List.cons_append, rekey_cons (h e List.mem_cons_self),
        ih fun e' he => h e' (List.mem_cons_of_mem _ he), List.cons_append]

theorem rekey_of_quiet (h : ∀ e ∈ es, ¬ e.call.IsSecret) : rekey key es = es := by
  have happend : rekey key (es ++ []) = es ++ rekey key [] := rekey_append_of_quiet h
  rwa [rekey, List.append_nil] at happend

/-- Later secrets stay as they are. -/
theorem rekey_append (h : ∃ e ∈ es, e.call.IsSecret) :
    rekey key (es ++ es') = rekey key es ++ es' := by
  induction es with
  | nil => simp at h
  | cons e es ih =>
      by_cases hsecret : e.call.IsSecret
      · obtain ⟨c, a⟩ := e
        cases c <;> first | rfl | cases hsecret
      · rw [List.cons_append, rekey_cons hsecret, rekey_cons hsecret, List.cons_append]
        refine congrArg _ (ih ?_)
        obtain ⟨e', he, hsecret'⟩ := h
        rcases List.mem_cons.mp he with rfl | he
        · exact absurd hsecret' hsecret
        · exact ⟨e', he, hsecret'⟩

/-- The calls are the same. -/
theorem call_rekey (key : String) (es : List (Event Ans)) :
    (rekey key es).map Event.call = es.map Event.call := by
  induction es with
  | nil => rfl
  | cons e es ih =>
      by_cases hsecret : e.call.IsSecret
      · obtain ⟨c, a⟩ := e
        cases c <;> first | rfl | cases hsecret
      · rw [rekey_cons hsecret, List.map_cons, List.map_cons, ih]

end Rekey

/-! ## Programs with another key -/

/-- What the one program can do the other can, with a result that `g`
describes. -/
def Maps {α β : Type} (g : α → β) (p : Program α) (p' : Program β) : Prop :=
  ∀ es r, Runs p es r → Runs p' es (r.map g)

/-- The same with another secret key. -/
def Rekeys {α β : Type} (key : String) (g : α → β) (p : Program α) (p' : Program β) : Prop :=
  ∀ es r, Runs p es r → Runs p' (rekey key es) (r.map g)

section Rules

variable {α β γ δ : Type} {key : String}

theorem maps_pure (g : α → β) (a : α) : Maps g (pure a) (pure (g a)) := by
  intro es r h
  obtain ⟨rfl, rfl⟩ := runs_pure_iff.mp h
  exact .done _

theorem Maps.bind {g : β → γ} {p : Program α} {f : α → Program β} {f' : α → Program γ}
    (hf : ∀ a, Maps g (f a) (f' a)) : Maps g (p >>= f) (p >>= f') := by
  intro es r h
  rcases runs_bind_iff.mp h with ⟨e, hrun, rfl⟩ | ⟨a, es₁, es₂, hrun, hrest, rfl⟩
  · exact runs_bind_iff.mpr (.inl ⟨e, hrun, rfl⟩)
  · exact runs_bind_iff.mpr (.inr ⟨a, es₁, es₂, hrun, hf a _ _ hrest, rfl⟩)

/-- Before the secret is read nothing changes. -/
theorem Rekeys.of_quiet {g : β → γ} {p : Program α} {f : α → Program β} {f' : α → Program γ}
    (hp : Only (fun c => ¬ c.IsSecret) p) (hf : ∀ a, Rekeys key g (f a) (f' a)) :
    Rekeys key g (p >>= f) (p >>= f') := by
  intro es r h
  rcases runs_bind_iff.mp h with ⟨e, hrun, rfl⟩ | ⟨a, es₁, es₂, hrun, hrest, rfl⟩
  · rw [rekey_of_quiet (hp _ _ hrun)]
    exact runs_bind_iff.mpr (.inl ⟨e, hrun, rfl⟩)
  · rw [rekey_append_of_quiet (hp _ _ hrun)]
    exact runs_bind_iff.mpr (.inr ⟨a, es₁, _, hrun, hf a _ _ hrest, rfl⟩)

/-- The program that reads the secret sees the other key. -/
theorem Rekeys.getSecret {g : β → γ} {awsRegion secretName : String} {f : Dict → Program β}
    {f' : Dict → Program γ}
    (hf : ∀ secret, Maps g (f secret) (f' (withSecretKey key secret))) :
    Rekeys key g (BinanceElt.getSecret awsRegion secretName >>= f)
      (BinanceElt.getSecret awsRegion secretName >>= f') := by
  have hread : ∀ {es} {r : Except PyError Dict},
      Runs (BinanceElt.getSecret awsRegion secretName) es r ↔
        es = [⟨.getSecretValue awsRegion secretName, r⟩] := by
    intro es r
    constructor
    · intro h
      rcases runs_raising_iff.mp h with h | ⟨e, h, -⟩
      · obtain ⟨answer, rfl, hr⟩ := runs_perform_iff.mp h
        rw [Except.ok.inj hr]
      · obtain ⟨answer, -, he⟩ := runs_perform_iff.mp h
        cases he
    · rintro rfl
      exact runs_raising_iff.mpr (.inl (runs_perform_iff.mpr ⟨r, rfl, rfl⟩))
  intro es r h
  rcases runs_bind_iff.mp h with ⟨e, hrun, rfl⟩ | ⟨secret, es₁, es₂, hrun, hrest, rfl⟩
  · rw [hread.mp hrun]
    exact runs_bind_iff.mpr (.inl ⟨e, hread.mpr rfl, rfl⟩)
  · rw [hread.mp hrun]
    exact runs_bind_iff.mpr (.inr ⟨withSecretKey key secret, _, es₂, hread.mpr rfl,
      hf secret _ _ hrest, rfl⟩)

/-- After it, the rest of the program goes on with the other result. -/
theorem Rekeys.bind {g : α → β} {g' : γ → δ} {p : Program α} {p' : Program β}
    {f : α → Program γ} {f' : β → Program δ} (hp : Rekeys key g p p')
    (hreads : ∀ {es a}, Runs p es (.ok a) → ∃ e ∈ es, e.call.IsSecret)
    (hf : ∀ a, Maps g' (f a) (f' (g a))) :
    Rekeys key g' (p >>= f) (p' >>= f') := by
  intro es r h
  rcases runs_bind_iff.mp h with ⟨e, hrun, rfl⟩ | ⟨a, es₁, es₂, hrun, hrest, rfl⟩
  · exact runs_bind_iff.mpr (.inl ⟨e, hp _ _ hrun, rfl⟩)
  · rw [rekey_append (hreads hrun)]
    exact runs_bind_iff.mpr (.inr ⟨g a, _, es₂, hp _ _ hrun, hf a _ _ hrest, rfl⟩)

end Rules

/-! ## The set-up -/

section SetUp

variable {key : String} {es : List (Event Ans)}

theorem rekeys_helperMethods_init :
    Rekeys key (fun self => { self with secretKey := key }) HelperMethods.init
      HelperMethods.init := by
  refine .of_quiet (only_perform id).raising fun config => .of_quiet (only_ofResult _) fun _ =>
    .of_quiet (only_ofResult _) fun _ => .of_quiet (only_ofResult _) fun _ =>
    .of_quiet (only_ofResult _) fun _ => .getSecret fun secret es r h => ?_
  rw [getItem_withSecretKey_of_ne key secret (by decide), getItem_withSecretKey]
  cases hapi : Dict.getItem secret "api_key" with
  | error e =>
      rw [hapi] at h
      obtain ⟨rfl, rfl⟩ := runs_done_iff.mp h
      exact .done _
  | ok apiKey =>
      rw [hapi] at h
      cases hsecret : Dict.getItem secret "secret_key" with
      | error e =>
          rw [hsecret] at h
          obtain ⟨rfl, rfl⟩ := runs_done_iff.mp h
          exact .done _
      | ok secretKey =>
          rw [hsecret] at h
          obtain ⟨rfl, rfl⟩ := runs_done_iff.mp h
          exact .done _

/-- The set-up has read the secret when it returns. -/
theorem exists_isSecret_helperMethods_init {self : HelperMethods}
    (h : Runs HelperMethods.init es (.ok self)) : ∃ e ∈ es, e.call.IsSecret := by
  obtain ⟨config, _, es₁, -, h₁, rfl⟩ := runs_bind_ok_iff.mp h
  obtain ⟨_, _, es₂, -, h₂, rfl⟩ := runs_bind_ok_iff.mp h₁
  obtain ⟨_, _, es₃, -, h₃, rfl⟩ := runs_bind_ok_iff.mp h₂
  obtain ⟨_, _, es₄, -, h₄, rfl⟩ := runs_bind_ok_iff.mp h₃
  obtain ⟨_, _, es₅, -, h₅, rfl⟩ := runs_bind_ok_iff.mp h₄
  obtain ⟨secret, es₆, es₇, hsecret, -, rfl⟩ := runs_bind_ok_iff.mp h₅
  rcases runs_raising_iff.mp hsecret with hsecret | ⟨e, -, he⟩
  · obtain ⟨answer, rfl, -⟩ := runs_perform_iff.mp hsecret
    exact ⟨⟨.getSecretValue _ _, answer⟩, by simp, trivial⟩
  · cases he

private theorem exists_mem_append {P : Event Ans → Prop} {es' : List (Event Ans)}
    (h : ∃ e ∈ es, P e) : ∃ e ∈ es ++ es', P e := by
  obtain ⟨e, he, hP⟩ := h
  exact ⟨e, List.mem_append_left _ he, hP⟩

theorem exists_isSecret_bqHelper_init {self : BqHelper} (h : Runs BqHelper.init es (.ok self)) :
    ∃ e ∈ es, e.call.IsSecret := by
  obtain ⟨_, _, _, hinit, -, rfl⟩ := runs_bind_ok_iff.mp h
  exact exists_mem_append (exists_isSecret_helperMethods_init hinit)

theorem exists_isSecret_binanceHelper_init {self : BinanceHelper}
    (h : Runs BinanceHelper.init es (.ok self)) : ∃ e ∈ es, e.call.IsSecret := by
  obtain ⟨_, _, _, hinit, -, rfl⟩ := runs_bind_ok_iff.mp h
  exact exists_mem_append (exists_isSecret_bqHelper_init hinit)

theorem rekeys_bqHelper_init :
    Rekeys key (fun self => { self with secretKey := key }) BqHelper.init BqHelper.init := by
  refine rekeys_helperMethods_init.bind exists_isSecret_helperMethods_init fun self => ?_
  exact .bind fun bqProjectId => .bind fun _ => maps_pure _ _

/-- Another secret key is all that the set-up with another secret key differs
in. -/
theorem rekeys_binanceHelper_init :
    Rekeys key (fun self => { self with secretKey := key }) BinanceHelper.init
      BinanceHelper.init := by
  refine rekeys_bqHelper_init.bind exists_isSecret_bqHelper_init fun self => ?_
  exact .bind fun currentTimestamp => maps_pure _ _

end SetUp

/-! ## The invocation -/

section Invocation

variable {hmacSha256 hmacSha256' : String → String → String} {key : String}

/-- When the signatures are the same, the branches of the two helpers are. -/
theorem onSchedule_withSecretKey {bh : BinanceHelper}
    (hsame : ∀ message, hmacSha256' key message = hmacSha256 bh.secretKey message)
    (schedule : Json) :
    onSchedule hmacSha256' { bh with secretKey := key } schedule =
      onSchedule hmacSha256 bh schedule := by
  have hsnapshot : ∀ type, getAccountSnapshot hmacSha256' { bh with secretKey := key } type =
      getAccountSnapshot hmacSha256 bh type := by
    intro type
    simp only [getAccountSnapshot, createSignature, hsame]
  have htwice : twiceADay hmacSha256' { bh with secretKey := key } = twiceADay hmacSha256 bh := by
    rw [twiceADay, hsnapshot]
    rfl
  rw [onSchedule.eq_def, onSchedule.eq_def, htwice]
  rfl

variable {event : Json} {es : List (Event Ans)} {r : Except PyError Unit}

/-- The secret key signs, and is used for nothing else: an invocation with
another key that makes the same signatures makes the same calls, is answered
alike and ends alike.

`rekey` puts the other key into the secret that was read, and leaves every other
answer.  So no request, no inserted row and no exception tells two keys apart
other than through what `hmac` returns. -/
theorem secretKey_only_signs (h : Runs (lambdaHandler hmacSha256 event) es r)
    (hsame : ∀ bh, SetUp es bh →
      ∀ message, hmacSha256' key message = hmacSha256 bh.secretKey message) :
    Runs (lambdaHandler hmacSha256' event) (rekey key es) r ∧
      (rekey key es).map Event.call = es.map Event.call := by
  refine ⟨?_, call_rekey key es⟩
  rcases runs_bind_iff.mp h with ⟨e, hinit, rfl⟩ | ⟨bh, es₁, es₂, hinit, hrest, rfl⟩
  · exact runs_bind_iff.mpr (.inl ⟨e, rekeys_binanceHelper_init _ _ hinit, rfl⟩)
  · have hkey := hsame bh ⟨es₁, List.prefix_append _ _, hinit⟩
    rw [rekey_append (exists_isSecret_binanceHelper_init hinit)]
    refine runs_bind_iff.mpr (.inr ⟨{ bh with secretKey := key }, _, es₂,
      rekeys_binanceHelper_init _ _ hinit, ?_, rfl⟩)
    simpa only [onSchedule_withSecretKey hkey] using hrest

end Invocation

/-- The attempt at a snapshot in which signatures begin with the key. -/
def signedAttempt : List (Event Ans) × Except PyError Unit :=
  (lambdaHandler (fun secretKey message => secretKey ++ message) halfDay).run
    (servicesUp (snapshotEnds (okReply oneBalance)) fun _ => .returned []) []

private theorem secretKey_signedAttempt {bh : BinanceHelper} (h : SetUp signedAttempt.1 bh) :
    bh.secretKey = "secret" := by
  have hrun := runs_run (servicesUp (snapshotEnds (okReply oneBalance)) fun _ => .returned [])
    BinanceHelper.init []
  have hsetUp : ∃ bh', SetUp signedAttempt.1 bh' ∧ bh'.secretKey = "secret" :=
    ⟨_, ⟨_, ⟨signedAttempt.1.drop 7, rfl⟩, hrun⟩, rfl⟩
  obtain ⟨bh', hbh', hkey⟩ := hsetUp
  rw [h.unique hbh', hkey]

theorem secretKey_only_signs_other :
    Runs (lambdaHandler (fun _ message => "secret" ++ message) halfDay)
        (rekey "other" signedAttempt.1) signedAttempt.2 ∧
      (rekey "other" signedAttempt.1).map Event.call = signedAttempt.1.map Event.call :=
  secretKey_only_signs (runs_run _ _ _) fun bh hbh message => by
    rw [secretKey_signedAttempt hbh]

end BinanceElt
