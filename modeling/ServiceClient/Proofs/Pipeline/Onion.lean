import ServiceClient.Pipeline.Probe
import ServiceClient.Proofs.Run

/-! Middleware that run what is left of their step once or not at all, and the marks that a call
leaves in the journal on its way in and out. A walk says which of them a call enters and where it
arrives; the marks of a run follow from the walk and from what happens at its end. -/

namespace ServiceClient.Pipeline

open Call (Calling Session Event)

inductive Mark where
  | entered (id : String)
  | left (id : String)
  | called
  deriving DecidableEq, Repr

def mark? : Event → Option Mark
  | .entered id _ => some (.entered id)
  | .left id _ => some (.left id)
  | .sent _ _ => some .called
  | _ => none

def marks (s : Session) : List Mark := s.journal.filterMap mark?

/-- What a computation adds to the marks. It leaves the options of the strategy as they are. -/
structure Adds {α : Type} (x : Calling α) (s : Session) (ms : List Mark) : Prop where
  marks : marks (x s).2 = marks s ++ ms
  options : (x s).2.strategy.options = s.strategy.options

def Quiet {α : Type} (x : Calling α) : Prop := ∀ s, Adds x s []

section Adds

variable {α β : Type} {s s' : Session} {x : Calling α} {f : α → Calling β} {ms ms' : List Mark}

theorem Adds.bind_ok {a : α} (hx : Adds x s ms) (h : x s = (.ok a, s'))
    (hf : Adds (f a) s' ms') : Adds (x >>= f) s (ms ++ ms') := by
  have hs' : s' = (x s).2 := by rw [h]
  constructor
  · rw [bind_of_ok h, hf.marks, hs', hx.marks, List.append_assoc]
  · rw [bind_of_ok h, hf.options, hs', hx.options]

theorem Adds.bind_error {e : CallError} (hx : Adds x s ms) (h : x s = (.error e, s')) :
    Adds (x >>= f) s ms := by
  have hs' : s' = (x s).2 := by rw [h]
  constructor
  · rw [bind_of_error h, hs', hx.marks]
  · rw [bind_of_error h, hs', hx.options]

theorem quiet_pure (a : α) : Quiet (pure a) := fun _ => ⟨(List.append_nil _).symm, rfl⟩

theorem quiet_fail (e : ClientError) : Quiet (Calling.fail e : Calling α) := fun _ =>
  ⟨(List.append_nil _).symm, rfl⟩

theorem quiet_ofOutcome (r : Except CallError α) : Quiet (Calling.ofOutcome r) := by
  cases r with
  | ok a => exact quiet_pure a
  | error e => exact fun _ => ⟨(List.append_nil _).symm, rfl⟩

theorem Quiet.bind (hx : Quiet x) (hf : ∀ a, Quiet (f a)) : Quiet (x >>= f) := by
  intro s
  cases h : x s with
  | mk r s' =>
    cases r with
    | ok a => exact (hx s).bind_ok h (hf a s')
    | error e => exact (hx s).bind_error h

theorem quiet_modify {f : Session → Session} (hjournal : ∀ s, (f s).journal = s.journal)
    (hoptions : ∀ s, (f s).strategy.options = s.strategy.options) :
    Quiet (modify f : Calling Unit) := fun s =>
  ⟨by rw [List.append_nil, marks, marks, ← hjournal s]; rfl, hoptions s⟩

theorem quiet_get : Quiet (get : Calling Session) := fun _ => ⟨(List.append_nil _).symm, rfl⟩

theorem adds_record (e : Event) (s : Session) :
    Adds (Calling.record e) s (mark? e).toList := by
  refine ⟨?_, rfl⟩
  have hjournal : (Calling.record e s).2.journal = s.journal ++ [e] := rfl
  rw [marks, marks, hjournal, List.filterMap_append]
  cases h : mark? e <;> simp [h]

theorem quiet_ofClient (r : Except ClientError α) : Quiet (Calling.ofClient r) := by
  cases r with
  | ok a => exact quiet_pure a
  | error e => exact quiet_fail e

end Adds

theorem quiet_takeReply : Quiet Calling.takeReply := by
  refine quiet_get.bind fun s => ?_
  dsimp only
  cases s.server.replies with
  | nil => exact quiet_pure _
  | cons reply rest =>
    refine Quiet.bind ?_ fun _ => quiet_pure _
    exact quiet_modify (fun _ => rfl) fun _ => rfl

theorem adds_transmit (request : Http.Request) (s : Session) :
    Adds (Calling.transmit request) s [.called] := by
  have hreply : Quiet (do
      let reply ← Calling.takeReply
      let session ← get
      Calling.wait (reply.exchange session.window).1
      Calling.ofClient (reply.exchange session.window).2) := by
    refine quiet_takeReply.bind fun reply => quiet_get.bind fun session => ?_
    refine Quiet.bind ?_ fun _ => quiet_ofClient _
    exact quiet_modify (fun _ => rfl) fun _ => rfl
  refine (quiet_get s).bind_ok rfl ?_
  dsimp only
  split
  · have hread : Quiet (some <$> Calling.readBody request.body) := fun s =>
      ⟨(List.append_nil _).symm, rfl⟩
    refine (hread s).bind_ok rfl ((adds_record (.sent request _) _).bind_ok rfl ?_)
    split
    · exact quiet_fail _ _
    · exact hreply _
  · refine (quiet_pure none s).bind_ok rfl ((adds_record (.sent request none) s).bind_ok rfl ?_)
    exact hreply _

theorem adds_transport {ο : Type} (request : Http.Request) (s : Session) :
    Adds (transport request : Calling (Output ο)) s [.called] := by
  have hsent := adds_transmit request s
  cases h : Calling.transmit request s with
  | mk r s' =>
    cases r with
    | ok response => exact hsent.bind_ok h (quiet_pure _ s')
    | error e => exact hsent.bind_error h

section Layers

variable {ι ω : Type}

/-- What a middleware does with a call that it has entered: it turns it back, or lets it go on and
then sees how it went. -/
inductive Turn (ι ω : Type) where
  | back (value : ω)
  | on (input : ι) (leave : Except CallError ω → Calling ω) (quiet : ∀ r, Quiet (leave r))

structure Layer (ι ω : Type) where
  id : String
  enter : (remaining : Nat) → ι → Calling (Turn ι ω)
  quiet : ∀ remaining input, Quiet (enter remaining input)

def Layer.middleware (x : Layer ι ω) : Middleware Calling ι ω where
  id := x.id
  handle input next := do
    match ← x.enter next.remaining input with
    | .back value => pure value
    | .on input leave _ => do leave (← Calling.outcome (next.run input))

def observed (x : Middleware Calling ι ω) : Middleware Calling ι ω where
  id := x.id
  handle input next := (trace x.id).handle input ⟨next.remaining, fun input => x.handle input next⟩

def entering (id : String) (s : Session) : Session :=
  { s with journal := s.journal ++ [.entered id s.context.attempt] }

@[simp] theorem marks_entering (id : String) (s : Session) :
    marks (entering id s) = marks s ++ [.entered id] := by
  simp [marks, entering, mark?]

def around (ids : List String) (ms : List Mark) : List Mark :=
  ids.map .entered ++ ms ++ ids.reverse.map .left

@[simp] theorem around_nil (ms : List Mark) : around [] ms = ms := by simp [around]

theorem around_append (ids ids' : List String) (ms : List Mark) :
    around (ids ++ ids') ms = around ids (around ids' ms) := by
  simp [around]

theorem around_cons (id : String) (ids : List String) (ms : List Mark) :
    around (id :: ids) ms = around [id] (around ids ms) := around_append [id] ids ms

theorem adds_observed {x : Middleware Calling ι ω} {input : ι} {next : Next Calling ι ω}
    {s : Session} {ms : List Mark} (h : Adds (x.handle input next) (entering x.id s) ms) :
    Adds ((observed x).handle input next) s (around [x.id] ms) := by
  let s' := (x.handle input next (entering x.id s)).2
  have hrun : ∃ success, ((observed x).handle input next s).2 =
      { s' with journal := s'.journal ++ [.left x.id success] } := by
    have houtcome : Calling.outcome (x.handle input next) (entering x.id s) =
        (.ok (x.handle input next (entering x.id s)).1, s') := rfl
    have hcontext : Calling.context s = (.ok s.context, s) := rfl
    have hrecord : Calling.record (.entered x.id s.context.attempt) s =
        (.ok (), entering x.id s) := rfl
    have hrun : (observed x).handle input next s = _ :=
      (bind_of_ok hcontext).trans ((bind_of_ok hrecord).trans (bind_of_ok houtcome))
    rw [hrun]
    cases (x.handle input next (entering x.id s)).1 with
    | ok value => exact ⟨true, rfl⟩
    | error e => exact ⟨false, rfl⟩
  obtain ⟨success, hs⟩ := hrun
  constructor
  · rw [hs]
    have hleft : marks { s' with journal := s'.journal ++ [.left x.id success] } =
        marks s' ++ [.left x.id] := by
      simp [marks, mark?]
    rw [hleft, h.marks]
    simp [around]
  · rw [hs]
    exact h.options

theorem adds_middleware_on {x : Layer ι ω} {input input' : ι} {next : Next Calling ι ω}
    {s s' : Session} {ms : List Mark} {leave : Except CallError ω → Calling ω}
    {hquiet : ∀ r, Quiet (leave r)}
    (h : x.enter next.remaining input s = (.ok (.on input' leave hquiet), s'))
    (hnext : Adds (next.run input') s' ms) : Adds (x.middleware.handle input next) s ms := by
  refine (x.quiet next.remaining input s).bind_ok h ?_
  have houtcome : Calling.outcome (next.run input') s' =
      (.ok (next.run input' s').1, (next.run input' s').2) := rfl
  have hadds : Adds (Calling.outcome (next.run input')) s' ms := ⟨hnext.marks, hnext.options⟩
  rw [← List.append_nil ms]
  exact hadds.bind_ok houtcome (hquiet _ _)

theorem adds_middleware_of_none {x : Layer ι ω} {input : ι} {next : Next Calling ι ω} {s : Session}
    (h : ∀ input' leave hquiet, (x.enter next.remaining input s).1 ≠ .ok (.on input' leave hquiet)) :
    Adds (x.middleware.handle input next) s [] := by
  have hquiet := x.quiet next.remaining input s
  cases henter : x.enter next.remaining input s with
  | mk r s' =>
    rw [henter] at h
    cases r with
    | error e => exact hquiet.bind_error henter
    | ok turn =>
      cases turn with
      | back value => exact hquiet.bind_ok henter (quiet_pure value s')
      | on input' leave hquiet => exact absurd rfl (h input' leave hquiet)

def Layer.forward (id : String) (f : ι → Calling ι) (hf : ∀ input, Quiet (f input)) :
    Layer ι ω where
  id := id
  enter _ input := do pure (.on (← f input) Calling.ofOutcome quiet_ofOutcome)
  quiet _ input := (hf input).bind fun _ => quiet_pure _

end Layers

section Walks

variable {ι κ μ ω : Type}

/-- The middleware that a call enters, and with what and in which session it arrives behind them, if
it does. -/
abbrev Walk (ι κ : Type) := ι → Session → List String × Option (κ × Session)

namespace Walk

def link (f : ι → Session → κ) : Walk ι κ := fun input s => ([], some (f input s, s))

def andThen (w : Walk ι κ) (v : Walk κ μ) : Walk ι μ := fun input s =>
  match w input s with
  | (ids, none) => (ids, none)
  | (ids, some (input, s)) => (ids ++ (v input s).1, (v input s).2)

def through (behind : Nat) : List (Layer ι ω) → Walk ι ι
  | [], input, s => ([], some (input, s))
  | x :: xs, input, s =>
    match x.enter (xs.length + behind) input (entering x.id s) with
    | (.ok (.on input _ _), s) => (x.id :: (through behind xs input s).1, (through behind xs input s).2)
    | _ => ([x.id], none)

def marks (w : Walk ι κ) (input : ι) (s : Session) : List Mark :=
  around (w input s).1 (if (w input s).2.isSome then [.called] else [])

/-- The call enters a first part of these middleware, all of them if it arrives. -/
structure Along (w : Walk ι κ) (ids : List String) : Prop where
  initial : ∀ input s, (w input s).1 <+: ids
  whole : ∀ input s, (w input s).2.isSome → (w input s).1 = ids

/-- A run that goes the way of the walk: it calls what is inside where the walk arrives. -/
structure Describes (w : Walk ι κ) (run : ι → Calling ω) (inner : κ → Calling ω) : Prop where
  options : ∀ input s k s', (w input s).2 = some (k, s') →
    s'.strategy.options = s.strategy.options
  stopped : ∀ input s, (w input s).2 = none → Adds (run input) s (around (w input s).1 [])
  arrived : ∀ input s k s' ms, (w input s).2 = some (k, s') → Adds (inner k) s' ms →
    Adds (run input) s (around (w input s).1 ms)

section AndThen

variable {w : Walk ι κ} {v : Walk κ μ} {input : ι} {s s' : Session} {ids ids' : List String} {k : κ}

theorem andThen_of_none (h : (w input s).2 = none) :
    (w.andThen v) input s = ((w input s).1, none) := by
  unfold andThen
  cases hw : w input s with
  | mk ids r => simp_all

theorem andThen_of_some {r : κ × Session} (h : (w input s).2 = some r) :
    (w.andThen v) input s = ((w input s).1 ++ (v r.1 r.2).1, (v r.1 r.2).2) := by
  unfold andThen
  cases hw : w input s with
  | mk ids r => simp_all

theorem Along.andThen (hw : w.Along ids) (hv : v.Along ids') : (w.andThen v).Along (ids ++ ids') := by
  constructor
  · intro input s
    cases h : (w input s).2 with
    | none =>
      rw [andThen_of_none h]
      exact (hw.initial input s).trans (List.prefix_append ids ids')
    | some r =>
      rw [andThen_of_some h, hw.whole input s (by simp [h])]
      exact List.prefix_append_right_inj ids |>.2 (hv.initial r.1 r.2)
  · intro input s hsome
    cases h : (w input s).2 with
    | none => simp [andThen_of_none h] at hsome
    | some r =>
      rw [andThen_of_some h] at hsome ⊢
      rw [hw.whole input s (by simp [h]), hv.whole r.1 r.2 hsome]

theorem Describes.andThen {run : ι → Calling ω} {middle : κ → Calling ω} {inner : μ → Calling ω}
    (hw : w.Describes run middle) (hv : v.Describes middle inner) :
    (w.andThen v).Describes run inner := by
  constructor
  · intro input s k s' hsome
    cases h : (w input s).2 with
    | none => simp [andThen_of_none h] at hsome
    | some r =>
      rw [andThen_of_some h] at hsome
      exact (hv.options r.1 r.2 k s' hsome).trans (hw.options input s r.1 r.2 h)
  · intro input s hnone
    cases h : (w input s).2 with
    | none =>
      rw [andThen_of_none h]
      exact hw.stopped input s h
    | some r =>
      rw [andThen_of_some h] at hnone ⊢
      rw [around_append]
      exact hw.arrived input s r.1 r.2 _ h (hv.stopped r.1 r.2 hnone)
  · intro input s k s' ms hsome hinner
    cases h : (w input s).2 with
    | none => simp [andThen_of_none h] at hsome
    | some r =>
      rw [andThen_of_some h] at hsome ⊢
      rw [around_append]
      exact hw.arrived input s r.1 r.2 _ h (hv.arrived r.1 r.2 k s' ms hsome hinner)

end AndThen

theorem along_link (f : ι → Session → κ) : (link f).Along [] :=
  ⟨fun _ _ => List.nil_prefix, fun _ _ _ => rfl⟩

theorem describes_link (f : ι → Session → κ) (inner : κ → Calling ω) :
    (link f).Describes (fun input s => inner (f input s) s) inner := by
  constructor
  · intro input s k s' h
    cases h
    rfl
  · intro input s h
    cases h
  · intro input s k s' ms h hinner
    cases h
    simpa [link] using ⟨hinner.marks, hinner.options⟩

theorem along_through (behind : Nat) (xs : List (Layer ι ω)) :
    (through behind xs).Along (xs.map (·.id)) := by
  induction xs with
  | nil => exact ⟨fun _ _ => List.nil_prefix, fun _ _ _ => rfl⟩
  | cons x xs ih =>
    constructor
    · intro input s
      rw [through]
      split
      · exact List.cons_prefix_cons.2 ⟨rfl, ih.initial _ _⟩
      · exact List.cons_prefix_cons.2 ⟨rfl, List.nil_prefix⟩
    · intro input s hsome
      rw [through] at hsome ⊢
      split at hsome
      · exact congrArg (x.id :: ·) (ih.whole _ _ hsome)
      · cases hsome

theorem remaining_chain (terminal : ι → Calling ω) (xs : List (Middleware Calling ι ω)) :
    (Step.chain terminal xs).remaining = xs.length := by
  cases xs <;> rfl

theorem describes_cons {x : Layer ι ω} {behind : Nat} {xs : List (Layer ι ω)}
    {next : Next Calling ι ω} {inner : ι → Calling ω}
    (hremaining : next.remaining = xs.length + behind)
    (h : (through behind xs).Describes next.run inner) : (through behind (x :: xs)).Describes
      (fun input => (observed x.middleware).handle input next) inner := by
  -- The first layer lets the call go on, or nothing arrives.
  constructor
  · intro input s k s' hsome
    rw [through] at hsome
    split at hsome
    · rename_i input' leave hquiet s₁ henter
      have hoptions := (x.quiet (xs.length + behind) input (entering x.id s)).options
      rw [henter] at hoptions
      exact (h.options input' s₁ k s' hsome).trans hoptions
    · cases hsome
  · intro input s hnone
    rw [through] at hnone ⊢
    rw [← hremaining] at hnone ⊢
    split at hnone
    · rename_i input' leave hquiet s₁ henter
      rw [around_cons]
      exact adds_observed (adds_middleware_on henter (h.stopped input' s₁ hnone))
    · rename_i hback
      refine adds_observed (adds_middleware_of_none fun input' leave hquiet henter => ?_)
      exact hback input' leave hquiet _ (Prod.ext henter rfl)
  · intro input s k s' ms hsome hinner
    rw [through] at hsome ⊢
    rw [← hremaining] at hsome ⊢
    split at hsome
    · rename_i input' leave hquiet s₁ henter
      rw [around_cons]
      exact adds_observed (adds_middleware_on henter (h.arrived input' s₁ k s' ms hsome hinner))
    · cases hsome

theorem describes_through (xs : List (Layer ι ω)) (rest : List (Middleware Calling ι ω))
    (terminal : ι → Calling ω) : (through rest.length xs).Describes
      (Step.chain terminal (xs.map (fun x => observed x.middleware) ++ rest)).run
      (Step.chain terminal rest).run := by
  induction xs with
  | nil =>
    constructor
    · intro input s k s' h
      cases h
      rfl
    · intro input s h
      cases h
    · intro input s k s' ms h hinner
      cases h
      simpa [through] using hinner
  | cons x xs ih =>
    exact describes_cons (by simp [remaining_chain]) ih

theorem Describes.adds {w : Walk ι κ} {run : ι → Calling ω} {transport : κ → Calling ω}
    (h : w.Describes run transport) (ht : ∀ k s, Adds (transport k) s [.called]) (input : ι)
    (s : Session) : Adds (run input) s (w.marks input s) := by
  unfold marks
  cases hend : (w input s).2 with
  | none => exact h.stopped input s hend
  | some r => exact h.arrived input s r.1 r.2 [.called] hend (ht r.1 r.2)

end Walk

end Walks

end ServiceClient.Pipeline
