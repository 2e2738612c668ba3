import ServiceClient.Proofs.Pipeline.Assembly
import ServiceClient.Proofs.Pipeline.Attempts
import ServiceClient.Proofs.Pipeline.Onion

/-! The order in which a call goes through a whole stack, however its steps were put together. What
is in front of a retrying middleware is entered once, and what is behind it once for each token that
the strategy gives out. -/

namespace ServiceClient.Pipeline

open Call (Calling Session)
open Http (Request)
open Retry (Strategy Token Advice)

section Retries

variable {ω : Type}

/-- The attempts that the strategy grants from a token on, each with its request and the session in
which it starts. -/
inductive Granted (advisor : Advisor) (run : Request → Calling ω) (request : Request) (limit : Nat) :
    Token → Session → List (Request × Session) → Prop where
  | last {token : Token} {s : Session}
      (h : renewal? advisor request token (attempt run (startOf request limit token s)) = none) :
      Granted advisor run request limit token s [startOf request limit token s]
  | again {token token' : Token} {s s' : Session} {starts : List (Request × Session)}
      (h : renewal? advisor request token (attempt run (startOf request limit token s)) =
          some (token', s'))
      (hrest : Granted advisor run request limit token' s' starts) :
      Granted advisor run request limit token s (startOf request limit token s :: starts)

inductive Tried (advisor : Advisor) (run : Request → Calling ω) (request : Request) (s : Session) :
    List (Request × Session) → Prop where
  | refused {e : CallError} {s' : Session} (h : acquire s.context.partitionId s = (.error e, s')) :
      Tried advisor run request s []
  | granted {token : Token} {id : String} {s' s'' : Session} {starts : List (Request × Session)}
      (h : acquire s.context.partitionId s = (.ok token, s'))
      (hid : Calling.drawIdentifier s' = (.ok id, s''))
      (hstarts : Granted advisor run (request.setHeader invocationHeader (Text.encode id))
        (Strategy.successor s.strategy.options.maxRetries) token s'' starts) :
      Tried advisor run request s starts

variable {advisor : Advisor} {run : Request → Calling ω} {request : Request} {limit : Nat}
  {walk : Request × Session → List Mark} {s : Session} {token : Token}

theorem renewal?_eq_some {r : Except CallError ω} {s' : Session} {token' : Token}
    (h : renewal? advisor request token (r, s) = some (token', s')) :
    (∃ e, r = .error e) ∧ token.retries < s.strategy.options.maxRetries ∧
      token'.retries = Strategy.successor token.retries ∧ marks s' = marks s ∧
      s'.strategy.options = s.strategy.options := by
  cases r with
  | ok output => simp [renewal?] at h
  | error e =>
    dsimp only [renewal?] at h
    cases ha : advisor e with
    | none => simp [ha] at h
    | some advice =>
      obtain ⟨hs, -⟩ | ⟨hlt, -, hs⟩ := schedule_cases token advice s
      · simp [ha, hs] at h
      · simp only [ha, hs, Option.ite_none_left_eq_some, Option.some.injEq, Prod.mk.injEq] at h
        obtain ⟨-, rfl, rfl⟩ := h
        exact ⟨⟨e, rfl⟩, hlt, rfl, rfl, rfl⟩

theorem adds_start (hrun : ∀ start, Adds (run start.1) start.2 (walk start))
    {r : Except CallError ω} {s' : Session}
    (hr : attempt run (startOf request limit token s) = (r, s')) :
    marks s' = marks s ++ walk (startOf request limit token s) ∧
      s'.strategy.options = s.strategy.options := by
  obtain ⟨hmarks, hoptions⟩ := hrun (startOf request limit token s)
  have hs' : (run (startOf request limit token s).1 (startOf request limit token s).2).2 = s' :=
    congrArg Prod.snd hr
  rw [hs'] at hmarks hoptions
  exact ⟨hmarks, hoptions⟩

theorem adds_last {left : Nat} (hrun : ∀ start, Adds (run start.1) start.2 (walk start))
    (h : renewal? advisor request token (attempt run (startOf request limit token s)) = none) :
    Adds (attempts advisor request run limit left token) s (walk (startOf request limit token s)) := by
  have hsettled : attempts advisor request run limit left token s =
      settled token (attempt run (startOf request limit token s)) := by
    rw [attempts_apply]
    dsimp only
    rw [h]
  cases hr : attempt run (startOf request limit token s) with
  | mk r s' =>
    obtain ⟨hmarks, hoptions⟩ := adds_start hrun hr
    rw [hr] at hsettled
    cases r with
    | ok output => exact ⟨by rw [hsettled]; exact hmarks, by rw [hsettled]; exact hoptions⟩
    | error e => exact ⟨by rw [hsettled]; exact hmarks, by rw [hsettled]; exact hoptions⟩

theorem last_or_again (advisor : Advisor) (limit : Nat) (token : Token)
    (hrun : ∀ start, Adds (run start.1) start.2 (walk start)) :
    renewal? advisor request token (attempt run (startOf request limit token s)) = none ∨
      ∃ e s₁ token' s', attempt run (startOf request limit token s) = (.error e, s₁) ∧
        renewal? advisor request token ((.error e : Except CallError ω), s₁) = some (token', s') ∧
        token.retries < s.strategy.options.maxRetries ∧
        token'.retries = min (token.retries + 1) Config.countLimit ∧
        marks s' = marks s ++ walk (startOf request limit token s) ∧
        s'.strategy.options = s.strategy.options := by
  cases hr : attempt run (startOf request limit token s) with
  | mk r s₁ =>
    obtain ⟨hmarks, hoptions⟩ := adds_start hrun hr
    cases hrenewal : renewal? advisor request token (r, s₁) with
    | none => exact .inl rfl
    | some next =>
      obtain ⟨token', s'⟩ := next
      obtain ⟨⟨e, rfl⟩, hlt, hretries, hmarks', hoptions'⟩ := renewal?_eq_some hrenewal
      exact .inr ⟨e, s₁, token', s', rfl, hrenewal, hoptions ▸ hlt, hretries,
        hmarks'.trans hmarks, hoptions'.trans hoptions⟩

/-- The strategy grants an attempt for each token, and nothing ends the attempts before it does. -/
theorem adds_attempts {left : Nat} (hrun : ∀ start, Adds (run start.1) start.2 (walk start))
    (hmax : s.strategy.options.maxRetries ≤ Config.countLimit)
    (hleft : s.strategy.options.maxRetries ≤ token.retries + left) :
    ∃ starts, Granted advisor run request limit token s starts ∧
      Adds (attempts advisor request run limit left token) s (starts.flatMap walk) := by
  induction left generalizing token s with
  | zero =>
    obtain hlast | ⟨e, s₁, token', s', -, -, hlt, -⟩ := last_or_again advisor limit token hrun
    · exact ⟨_, .last hlast, by simpa using adds_last hrun hlast⟩
    · omega
  | succ left ih =>
    obtain hlast | ⟨e, s₁, token', s', hr, hrenewal, hlt, hretries, hmarks, hoptions⟩ :=
      last_or_again advisor limit token hrun
    · exact ⟨_, .last hlast, by simpa using adds_last hrun hlast⟩
    · have hmax' : s'.strategy.options.maxRetries ≤ Config.countLimit := by rwa [hoptions]
      have hleft' : s'.strategy.options.maxRetries ≤ token'.retries + left := by
        rw [hoptions]
        omega
      obtain ⟨starts, hstarts, hadds⟩ := ih hmax' hleft'
      have hagain : attempts advisor request run limit (left + 1) token s =
          attempts advisor request run limit left token' s' := by
        rw [attempts_apply, hr]
        dsimp only
        rw [hrenewal]
      refine ⟨_, .again (hr ▸ hrenewal) hstarts, ?_, ?_⟩
      · rw [hagain, hadds.marks, hmarks, List.flatMap_cons, List.append_assoc]
      · rw [hagain, hadds.options, hoptions]

theorem adds_retry (hrun : ∀ start, Adds (run start.1) start.2 (walk start)) (remaining : Nat)
    (hmax : s.strategy.options.maxRetries ≤ Config.countLimit) :
    ∃ starts, Tried advisor run request s starts ∧
      Adds ((retry advisor).handle request ⟨remaining, run⟩) s (starts.flatMap walk) := by
  let p := s.context.partitionId
  let s₁ := { s with strategy := { s.strategy with pool := s.strategy.pool.touch p } }
  have hacquire := acquire_apply p s
  by_cases hc : Retry.retryCost ≤ s.strategy.capacity p
  · rw [Strategy.acquire_of_le hc] at hacquire
    let x := Retrial.of advisor request run s
    have hdraw : Calling.drawIdentifier s₁ = (.ok _, x.first) := rfl
    have hmax' : x.first.strategy.options.maxRetries ≤ 0 + Config.countLimit := by rwa [Nat.zero_add]
    obtain ⟨starts, hstarts, hadds⟩ := @adds_attempts _ advisor run x.request
      (Strategy.successor x.retries) walk x.first ⟨p, 0, none, .zero⟩ Config.countLimit hrun hmax hmax'
    have hhandle := retry_apply advisor request ⟨remaining, run⟩ hc
    exact ⟨starts, .granted hacquire hdraw hstarts, by rw [hhandle]; exact hadds.marks,
      by rw [hhandle]; exact hadds.options⟩
  · rw [Strategy.acquire_of_lt (Nat.lt_of_not_le hc)] at hacquire
    have hcontext : Calling.context s = (.ok s.context, s) := rfl
    have hhandle : (retry advisor).handle request ⟨remaining, run⟩ s =
        (.error (.retry (.noCapacity p)), s₁) :=
      (bind_of_ok hcontext).trans (bind_of_error hacquire)
    exact ⟨[], .refused hacquire, by rw [hhandle]; exact (List.append_nil _).symm,
      by rw [hhandle]⟩

end Retries

section Stacks

inductive Link (ω : Type) where
  | layer (x : Layer Request ω)
  | retrying (advisor : Advisor)

def Link.middleware {ω : Type} : Link ω → Middleware Calling Request ω
  | .layer x => x.middleware
  | .retrying advisor => retry advisor

structure Assembly (ι ο : Type) where
  id : String
  preparation : List (Change (Layer ι (Output ο)))
  drafting : List (Change (Layer (Draft ι) (Output ο)))
  addressing : List (Change (Layer Request (Output ο)))
  finishing : List (Change (Link (Output ο)))
  reading : List (Change (Layer Request (Output ο)))

def Stack.ids {ι ο : Type} (s : Stack ι ο) : List String :=
  s.preparation.ids ++ s.drafting.ids ++ s.addressing.ids ++ s.finishing.ids ++ s.reading.ids

def layers {ι ω : Type} (cs : List (Change (Layer ι ω))) : List (Layer ι ω) :=
  Change.arranged (·.id) cs

def layered {ι ω : Type} (s : Step Calling ι ω) (cs : List (Change (Layer ι ω))) :
    Step Calling ι ω :=
  s.changes (cs.map (Change.map fun x => observed x.middleware))

namespace Assembly

variable {ι ο : Type} (a : Assembly ι ο)

def links : List (Link (Output ο)) := Change.arranged (·.middleware.id) a.finishing

def stack : Stack ι ο :=
  let s := Stack.empty a.id
  { id := s.id
    preparation := layered s.preparation a.preparation
    drafting := layered s.drafting a.drafting
    addressing := layered s.addressing a.addressing
    finishing := s.finishing.changes (a.finishing.map (Change.map fun x => observed x.middleware))
    reading := layered s.reading a.reading }

def approach (behind : Nat) (front : List (Layer Request (Output ο))) : Walk ι Request :=
  (Walk.through 0 (layers a.preparation)).andThen
    ((Walk.link fun input s => ⟨input, Stack.blankRequest s.context⟩).andThen
      ((Walk.through 0 (layers a.drafting)).andThen
        ((Walk.link fun (draft : Draft ι) _ => draft.request).andThen
          ((Walk.through 0 (layers a.addressing)).andThen (Walk.through behind front)))))

def descent (back : List (Layer Request (Output ο))) : Walk Request Request :=
  (Walk.through 0 back).andThen (Walk.through 0 (layers a.reading))

end Assembly

theorem entries_layered {ι ω : Type} (id : String) (cs : List (Change (Layer ι ω))) :
    (layered (.empty id) cs).entries = (layers cs).map fun x => observed x.middleware :=
  Step.entries_changes (fun _ => rfl) cs rfl

theorem ids_layered {ι ω : Type} (id : String) (cs : List (Change (Layer ι ω))) :
    (layered (.empty id) cs).ids = (layers cs).map (·.id) := by
  simp [Step.ids, entries_layered, observed, Layer.middleware]

theorem describes_step {ι ω : Type} {s : Step Calling ι ω} {xs : List (Layer ι ω)}
    (h : s.entries = xs.map fun x => observed x.middleware) (terminal : ι → Calling ω) :
    (Walk.through 0 xs).Describes (s.run terminal) terminal := by
  have hchain := Walk.describes_through xs [] terminal
  rw [List.append_nil, ← h] at hchain
  exact hchain

namespace Assembly

variable {ι ο : Type} (a : Assembly ι ο) (transport : Request → Calling (Output ο))

theorem entries_finishing :
    a.stack.finishing.entries = a.links.map fun x => observed x.middleware :=
  Step.entries_changes (fun _ => rfl) a.finishing rfl

theorem describes_approach {front : List (Layer Request (Output ο))}
    {rest : List (Middleware Calling Request (Output ο))}
    (h : a.stack.finishing.entries = front.map (fun x => observed x.middleware) ++ rest) :
    (a.approach rest.length front).Describes (a.stack.send transport)
      (Step.chain (a.stack.reading.run transport) rest).run := by
  let finish := a.stack.finishing.run (a.stack.reading.run transport)
  let draft := a.stack.drafting.run fun d => a.stack.addressing.run finish d.request
  have hfinish : (Walk.through rest.length front).Describes finish
      (Step.chain (a.stack.reading.run transport) rest).run := by
    have hchain := Walk.describes_through front rest (a.stack.reading.run transport)
    rwa [← h] at hchain
  have hdraft := describes_step (entries_layered "Serialize" a.drafting) fun d =>
    a.stack.addressing.run finish d.request
  have haddress := describes_step (entries_layered "Build" a.addressing) finish
  have hprepare := describes_step (entries_layered "Initialize" a.preparation) fun input => do
    draft ⟨input, Stack.blankRequest (← Calling.context)⟩
  exact hprepare.andThen ((Walk.describes_link _ draft).andThen (hdraft.andThen
    ((Walk.describes_link _ (a.stack.addressing.run finish)).andThen (haddress.andThen hfinish))))

theorem describes_descent (back : List (Layer Request (Output ο))) : (a.descent back).Describes
    (Step.chain (a.stack.reading.run transport) (back.map fun x => observed x.middleware)).run
    transport := by
  have hback := Walk.describes_through back [] (a.stack.reading.run transport)
  rw [List.append_nil] at hback
  exact hback.andThen (describes_step (entries_layered "Deserialize" a.reading) transport)

theorem along_step {κ ω : Type} (id : String) (cs : List (Change (Layer κ ω))) :
    (Walk.through 0 (layers cs)).Along (layered (.empty id) cs).ids := by
  rw [ids_layered]
  exact Walk.along_through 0 (layers cs)

theorem along_approach (behind : Nat) (front : List (Layer Request (Output ο))) :
    (a.approach behind front).Along (a.stack.preparation.ids ++ a.stack.drafting.ids ++
      a.stack.addressing.ids ++ front.map (·.id)) := by
  have h : (a.approach behind front).Along (a.stack.preparation.ids ++ ([] ++
      (a.stack.drafting.ids ++ ([] ++ (a.stack.addressing.ids ++ front.map (·.id)))))) :=
    (along_step "Initialize" a.preparation).andThen ((Walk.along_link _).andThen
    ((along_step "Serialize" a.drafting).andThen ((Walk.along_link _).andThen
      ((along_step "Build" a.addressing).andThen (Walk.along_through behind front)))))
  simpa only [List.nil_append, ← List.append_assoc] using h

theorem along_descent (back : List (Layer Request (Output ο))) :
    (a.descent back).Along (back.map (·.id) ++ a.stack.reading.ids) :=
  (Walk.along_through 0 back).andThen (along_step "Deserialize" a.reading)

theorem ids_finishing : a.stack.finishing.ids = a.links.map (·.middleware.id) := by
  simp [Step.ids, entries_finishing, observed]

end Assembly

/-- Whatever changes its steps were put together by: the layers of a stack are entered in the order
of their ids up to the first that does not let the call go on, the transport is called if there is
none, and they are left in the opposite order. The layers behind a retrying one are gone through in
that way in each attempt that the strategy grants, those in front of it once. -/
theorem marks_send {ι ο : Type} (a : Assembly ι ο) (transport : Request → Calling (Output ο))
    (htransport : ∀ request s, Adds (transport request) s [.called]) (input : ι) (s : Session)
    (hmax : s.strategy.options.maxRetries ≤ Config.countLimit) :
    let t := a.stack
    let first := t.preparation.ids ++ t.drafting.ids ++ t.addressing.ids
    let after := marks (t.send transport input s).2
    (∀ xs, a.links = xs.map .layer →
      let w := (a.approach 0 xs).andThen (a.descent [])
      w.Along (first ++ t.finishing.ids ++ t.reading.ids) ∧ after = marks s ++ w.marks input s) ∧
    (∀ front advisor back, a.links = front.map .layer ++ .retrying advisor :: back.map .layer →
      let w := a.approach (back.length + 1) front
      let v := a.descent back
      let run := (Step.chain (t.reading.run transport)
        (back.map fun x => observed x.middleware)).run
      t.finishing.ids = front.map (·.id) ++ "Retry" :: back.map (·.id) ∧
      w.Along (first ++ front.map (·.id)) ∧ v.Along (back.map (·.id) ++ t.reading.ids) ∧
      ((w input s).2 = none → after = marks s ++ around (w input s).1 []) ∧
      (∀ request s', (w input s).2 = some (request, s') →
        ∃ starts, Tried advisor run request (entering "Retry" s') starts ∧
          after = marks s ++ around ((w input s).1 ++ ["Retry"])
            (starts.flatMap fun start => v.marks start.1 start.2))) := by
  intro t first after
  refine ⟨fun xs hlinks => ?_, fun front advisor back hlinks => ?_⟩
  · intro w
    have hids : t.finishing.ids = xs.map (·.id) := by
      simp [t, Assembly.ids_finishing, hlinks, Link.middleware, Layer.middleware]
    have hentries : t.finishing.entries = xs.map (fun x => observed x.middleware) ++ [] := by
      simp [t, Assembly.entries_finishing, hlinks, Link.middleware]
    have halong := (a.along_approach 0 xs).andThen (a.along_descent [])
    have hw : w.Describes (t.send transport) transport :=
      (a.describes_approach transport hentries).andThen (a.describes_descent transport [])
    refine ⟨?_, (hw.adds htransport input s).marks⟩
    rwa [← hids] at halong
  · intro w v run
    have hids : t.finishing.ids = front.map (·.id) ++ "Retry" :: back.map (·.id) := by
      rw [Assembly.ids_finishing, hlinks, List.map_append, List.map_cons, List.map_map, List.map_map]
      rfl
    have hentries : t.finishing.entries = front.map (fun x => observed x.middleware) ++
        observed (retry advisor) :: back.map (fun x => observed x.middleware) := by
      rw [Assembly.entries_finishing, hlinks, List.map_append, List.map_cons, List.map_map,
        List.map_map]
      rfl
    have hw := a.describes_approach transport hentries
    rw [List.length_cons, List.length_map] at hw
    refine ⟨hids, a.along_approach _ front, a.along_descent back,
      fun hnone => (hw.stopped input s hnone).marks, fun request s' hsome => ?_⟩
    have hoptions := hw.options input s request s' hsome
    have hmax' : (entering "Retry" s').strategy.options.maxRetries ≤ Config.countLimit := by
      rwa [← hoptions] at hmax
    -- Behind the retries the rest of the walk is made once for every attempt.
    obtain ⟨starts, hstarts, hadds⟩ := adds_retry
      (fun start => (a.describes_descent transport back).adds htransport start.1 start.2)
      (Step.chain (t.reading.run transport) (back.map fun x => observed x.middleware)).remaining
      hmax'
    refine ⟨starts, hstarts, ?_⟩
    rw [around_append]
    exact (hw.arrived input s request s' _ hsome (adds_observed hadds)).marks

/-- Two middleware come in beside others, one finds none to go beside, and retries are made between
two more. -/
def rearranged : Assembly Unit Unit where
  id := "Send"
  preparation := [.add (plain "Last") .last, .add (plain "First") .first,
    .add (plain "Middle") (.before "Last"), .add (plain "Lost") (.after "None"), .remove "None"]
  drafting := [.add (plain "Draft") .last]
  addressing := []
  finishing := [.add (.retrying .always) .last, .add (.layer (plain "Outer")) (.before "Retry"),
    .add (.layer (plain "Inner")) (.after "Retry")]
  reading := [.add (plain "Reading") .first, .add (plain "Reading") .last, .remove "Reading"]
where
  plain {ι ω : Type} (id : String) : Layer ι ω := .forward id pure quiet_pure

def unsteady : Session :=
  { calm with server := { calm.server with replies := [⟨0, .failure (.network "reset")⟩] } }

theorem marks_send_rearranged :
    (∀ request s, Adds (transport request : Calling (Output Unit)) s [.called]) ∧
    unsteady.strategy.options.maxRetries ≤ Config.countLimit ∧
    ∃ (run : Request → Calling (Output Unit)) (request : Request) (s' : Session)
      (starts : List (Request × Session)),
      Tried Advisor.always run request (entering "Retry" s') starts ∧
      marks (rearranged.stack.send transport () unsteady).2 =
        around ["First", "Middle", "Last", "Draft", "Outer", "Retry"] (starts.flatMap fun start =>
          (rearranged.descent [rearranged.plain "Inner"]).marks start.1 start.2) := by
  have hmax : unsteady.strategy.options.maxRetries ≤ Config.countLimit := by decide
  have h := (marks_send rearranged transport adds_transport () unsteady hmax).2
    [rearranged.plain "Outer"] .always [rearranged.plain "Inner"] rfl
  obtain ⟨-, -, -, -, harrived⟩ := h
  obtain ⟨starts, hstarts, hmarks⟩ := harrived _ _ rfl
  exact ⟨adds_transport, hmax, _, _, _, starts, hstarts, hmarks⟩

example : marks (rearranged.stack.send transport () unsteady).2 =
    around ["First", "Middle", "Last", "Draft", "Outer", "Retry"]
      (around ["Inner", "Reading"] [.called] ++ around ["Inner", "Reading"] [.called]) := by
  decide +kernel

end Stacks

end ServiceClient.Pipeline
