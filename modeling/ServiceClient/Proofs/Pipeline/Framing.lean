import ServiceClient.Pipeline.Finishing
import ServiceClient.Proofs.Pipeline.Attempts

/-! How the body of a request is framed: by its length, or in chunks if that is unknown. Of the two
fields, the one that the body calls for is set anew for every attempt. A length that came with the
request is dropped in front of chunks, but a transfer encoding that came with it stays beside the
length. -/

namespace ServiceClient

namespace Http.Headers

variable {h : Headers} {name other : String}

theorem values_add_self (v : Text.Octets) : (h.add name v).values name = h.values name ++ [v] := by
  simp [values, add]

theorem values_add_of_ne (v : Text.Octets) (hne : Text.lowerAscii name ≠ Text.lowerAscii other) :
    (h.add name v).values other = h.values other := by
  simp [values, add, hne]

theorem values_remove_self : (h.remove name).values name = [] := by
  simp [values, remove, List.filter_filter]

theorem values_remove_of_ne (hne : Text.lowerAscii name ≠ Text.lowerAscii other) :
    (h.remove name).values other = h.values other := by
  have hfilter : ∀ f : Header, (f.name == Text.lowerAscii other && f.name != Text.lowerAscii name) =
      (f.name == Text.lowerAscii other) := by
    intro f
    by_cases hf : f.name = Text.lowerAscii other <;> simp [hf, Ne.symm hne]
  simp only [values, remove, List.filter_filter, hfilter]

theorem values_set_self (v : Text.Octets) : (h.set name v).values name = [v] := by
  rw [set, values_add_self, values_remove_self, List.nil_append]

theorem values_set_of_ne (v : Text.Octets) (hne : Text.lowerAscii name ≠ Text.lowerAscii other) :
    (h.set name v).values other = h.values other := by
  rw [set, values_add_of_ne v hne, values_remove_of_ne hne]

end Http.Headers

namespace Http.Request

/-- The request tells the end of its body in one way: by its length, or by its last chunk. -/
def IsFramed (r : Request) : Prop :=
  match r.body.length? with
  | some n => r.headers.values "content-length" = [Text.encode (Nat.repr n)] ∧
      r.headers.values "transfer-encoding" = []
  | none => r.headers.values "content-length" = [] ∧
      r.headers.values "transfer-encoding" = [Text.encode "chunked"]

def IsFramable (r : Request) : Prop :=
  r.body.length? = none ∨ r.headers.values "transfer-encoding" = []

structure SameFraming (r q : Request) : Prop where
  length : q.body.length? = r.body.length?
  encodings : q.headers.values "transfer-encoding" = r.headers.values "transfer-encoding"

variable {r q p : Request}

theorem SameFraming.refl (r : Request) : r.SameFraming r := ⟨rfl, rfl⟩

theorem SameFraming.trans (h : r.SameFraming q) (h' : q.SameFraming p) : r.SameFraming p :=
  ⟨h'.length.trans h.length, h'.encodings.trans h.encodings⟩

theorem SameFraming.isFramable_iff (h : r.SameFraming q) : q.IsFramable ↔ r.IsFramable := by
  rw [IsFramable, h.length, h.encodings, IsFramable]

theorem sameFraming_setHeader (r : Request) {name : String} (v : Text.Octets)
    (hne : Text.lowerAscii name ≠ Text.lowerAscii "transfer-encoding") :
    r.SameFraming (r.setHeader name v) := ⟨rfl, Headers.values_set_of_ne v hne⟩

end Http.Request

namespace Pipeline

open Call (Calling)
open Http (Request)

section RunsOn

variable {m : Type → Type} {ι κ ω β : Type} {P Q : ι → Prop}

/-- Runs what follows on such inputs only: what it would do on others makes no difference. -/
def RunsOn (P : ι → Prop) (f : (ι → m ω) → β) : Prop :=
  ∀ run run', (∀ input, P input → run input = run' input) → f run = f run'

theorem runsOn_const (b : β) : RunsOn P fun _ : ι → m ω => b := fun _ _ _ => rfl

theorem runsOn_run (input : ι) (h : P input) : RunsOn P fun run : ι → m ω => run input :=
  fun _ _ hrun => hrun input h

theorem RunsOn.map {f : (ι → m ω) → β} (hf : RunsOn P f) (g : β → κ) :
    RunsOn P fun run => g (f run) := fun run run' hrun => congrArg g (hf run run' hrun)

theorem RunsOn.bind {α γ : Type} [Bind m] {x : (ι → m ω) → m α} {f : α → (ι → m ω) → m γ}
    (hx : RunsOn P x) (hf : ∀ a, RunsOn P (f a)) : RunsOn P fun run => x run >>= fun a => f a run := by
  intro run run' hrun
  dsimp only
  rw [hx run run' hrun, funext fun a => hf a run run' hrun]

theorem RunsOn.mono {f : (ι → m ω) → β} (hf : RunsOn P f) (h : ∀ input, P input → Q input) :
    RunsOn Q f := fun run run' hrun => hf run run' fun input hinput => hrun input (h input hinput)

theorem RunsOn.comp {f : (ι → m ω) → β} {g : ι → (κ → m ω) → m ω} {R : κ → Prop}
    (hf : RunsOn P f) (hg : ∀ input, P input → RunsOn R (g input)) :
    RunsOn R fun run => f fun input => g input run := fun run run' hrun =>
  hf _ _ fun input h => hg input h run run' hrun

end RunsOn

variable {ω : Type} {r : Request}

theorem values_addFraming_of_some {n : Nat} (h : r.body.length? = some n) :
    (addFraming r).headers.values "content-length" = [Text.encode (Nat.repr n)] ∧
      (addFraming r).headers.values "transfer-encoding" =
        r.headers.values "transfer-encoding" := by
  rw [addFraming, h]
  exact ⟨Http.Headers.values_set_self _, Http.Headers.values_set_of_ne _ (by decide)⟩

theorem values_addFraming_of_none (h : r.body.length? = none) :
    (addFraming r).headers.values "content-length" = [] ∧
      (addFraming r).headers.values "transfer-encoding" = [Text.encode "chunked"] := by
  rw [addFraming, h]
  refine ⟨?_, Http.Headers.values_set_self _⟩
  exact (Http.Headers.values_set_of_ne _ (by decide)).trans Http.Headers.values_remove_self

theorem addFraming_eq (r : Request) :
    addFraming r = { r with headers := (addFraming r).headers } := by
  unfold addFraming
  split <;> rfl

theorem body_addFraming (r : Request) : (addFraming r).body = r.body := by
  rw [addFraming_eq]

theorem values_addFraming_of_ne {name : String}
    (hlength : Text.lowerAscii "content-length" ≠ Text.lowerAscii name)
    (hencoding : Text.lowerAscii "transfer-encoding" ≠ Text.lowerAscii name) :
    (addFraming r).headers.values name = r.headers.values name := by
  unfold addFraming
  split
  · exact Http.Headers.values_set_of_ne _ hlength
  · exact (Http.Headers.values_set_of_ne _ hencoding).trans
      (Http.Headers.values_remove_of_ne hlength)

theorem isFramed_addFraming_iff (r : Request) : (addFraming r).IsFramed ↔ r.IsFramable := by
  unfold Request.IsFramed Request.IsFramable
  rw [body_addFraming]
  cases h : r.body.length? with
  | none => simpa using values_addFraming_of_none h
  | some n => simp [values_addFraming_of_some h]

section Retries

theorem runsOn_attempts (advisor : Advisor) (request : Request) (limit left : Nat)
    (token : Retry.Token) :
    RunsOn (fun q => ∃ attempt, q = numbered request attempt limit) fun run : Request → Calling ω =>
      attempts advisor request run limit left token := by
  intro run run' hrun
  dsimp only
  have hstart : ∀ token s, attempt run (startOf request limit token s) =
      attempt run' (startOf request limit token s) := fun _ _ => congrFun (hrun _ ⟨_, rfl⟩) _
  -- An attempt ends the loop or goes on with a pass less, whatever token that is granted with.
  induction left generalizing token with
  | zero =>
    funext s
    rw [attempts_apply, attempts_apply, hstart]
    dsimp only
    cases renewal? advisor request token (attempt run' (startOf request limit token s)) <;> rfl
  | succ left ih =>
    funext s
    rw [attempts_apply, attempts_apply, hstart]
    dsimp only
    cases renewal? advisor request token (attempt run' (startOf request limit token s)) with
    | none => rfl
    | some next => exact congrFun (ih next.1) next.2

def KeepsFraming (x : Middleware Calling Request ω) : Prop :=
  ∀ (r : Request) (remaining : Nat), RunsOn r.SameFraming fun run => x.handle r ⟨remaining, run⟩

theorem keepsFraming_retry (advisor : Advisor) :
    KeepsFraming (retry advisor : Middleware Calling Request ω) := by
  intro r remaining
  have hkeeps : ∀ (id : String) (limit : Nat) (q : Request),
      (∃ n, q = numbered (r.setHeader invocationHeader (Text.encode id)) n limit) →
        r.SameFraming q := by
    rintro id limit q ⟨n, rfl⟩
    exact (r.sameFraming_setHeader _ (by decide)).trans
      (Request.sameFraming_setHeader _ _ (by decide))
  unfold retry
  refine (runsOn_const _).bind fun c => (runsOn_const _).bind fun token => ?_
  refine (runsOn_const _).bind fun s => (runsOn_const _).bind fun id => ?_
  exact (runsOn_attempts _ _ _ _ token).mono (hkeeps id _)

theorem keepsFraming_signer : KeepsFraming (signer : Middleware Calling Request ω) := by
  intro r remaining
  unfold signer
  refine (runsOn_const _).bind fun c => (runsOn_const _).bind fun params => ?_
  unfold signRequest
  cases c.authScheme.signer with
  | anonymous => exact runsOn_run r (.refl r)
  | naming =>
    simp only [bind_assoc, pure_bind]
    refine (runsOn_const _).bind fun _ => ?_
    exact runsOn_run _ (r.sameFraming_setHeader _ (by decide))
  | refusing =>
    simp only [bind_assoc]
    exact (runsOn_const _).bind fun _ _ _ _ => rfl

end Retries

section Behind

def Next.behind {m : Type → Type} {ι ω : Type} (next : Next m ι ω) :
    List (Middleware m ι ω) → Next m ι ω
  | [] => next
  | x :: xs => ⟨(next.behind xs).remaining + 1, fun input => x.handle input (next.behind xs)⟩

theorem remaining_behind {m : Type → Type} {ι ω : Type} (next : Next m ι ω)
    (xs : List (Middleware m ι ω)) : (next.behind xs).remaining = next.remaining + xs.length := by
  induction xs with
  | nil => rfl
  | cons x xs ih =>
    rw [Next.behind, ih, List.length_cons, Nat.add_assoc]

theorem behind_append {m : Type → Type} {ι ω : Type} (next : Next m ι ω)
    (xs ys : List (Middleware m ι ω)) : next.behind (xs ++ ys) = (next.behind ys).behind xs := by
  induction xs with
  | nil => rfl
  | cons x xs ih => rw [List.cons_append, Next.behind, Next.behind, ih]

theorem chain_eq_behind {m : Type → Type} {ι ω : Type} (terminal : ι → m ω)
    (xs : List (Middleware m ι ω)) :
    Step.chain terminal xs = (⟨0, terminal⟩ : Next m ι ω).behind xs := by
  induction xs with
  | nil => rfl
  | cons x xs ih => rw [Step.chain, Next.behind, ih, remaining_behind, Nat.zero_add]

theorem runsOn_behind {xs : List (Middleware Calling Request ω)} (h : ∀ x ∈ xs, KeepsFraming x)
    (r : Request) (remaining : Nat) :
    RunsOn r.SameFraming fun run => ((⟨remaining, run⟩ : Next Calling Request ω).behind xs).run r := by
  induction xs generalizing r with
  | nil => exact runsOn_run r (.refl r)
  | cons x xs ih =>
    obtain ⟨hx, hxs⟩ := List.forall_mem_cons.1 h
    -- A middleware sees how many others are behind it; that does not depend on what they end in.
    have hhandle : ∀ run : Request → Calling ω,
        x.handle r ((⟨remaining, run⟩ : Next Calling Request ω).behind xs) =
          x.handle r ⟨remaining + xs.length, ((⟨remaining, run⟩ : Next _ _ _).behind xs).run⟩ :=
      fun run => by rw [← remaining_behind ⟨remaining, run⟩ xs]
    have hcomp := (hx r (remaining + xs.length)).comp fun q hq =>
      (ih hxs q).mono fun p hp => hq.trans hp
    exact fun run run' hrun =>
      (hhandle run).trans ((hcomp run run' hrun).trans (hhandle run').symm)

/-- The request that the framing passes on has the one field that its body calls for, unless it came
with a transfer encoding and its length is known: then it has both. It is so at every attempt, as
long as no middleware between the retries and the framing changes that. -/
theorem contentLength_framing (advisor : Advisor) {between : List (Middleware Calling Request ω)}
    (hbetween : ∀ x ∈ between, KeepsFraming x) (r : Request) :
    (∃ passed : Request,
      (∀ next : Next Calling Request ω, contentLength.handle r next = next.run passed) ∧
      passed = { r with headers := passed.headers } ∧
      (∀ name, Text.lowerAscii "content-length" ≠ Text.lowerAscii name →
        Text.lowerAscii "transfer-encoding" ≠ Text.lowerAscii name →
        passed.headers.values name = r.headers.values name) ∧
      passed.headers.values "content-length" =
        (r.body.length?.map fun n => Text.encode (Nat.repr n)).toList ∧
      passed.headers.values "transfer-encoding" =
        (if r.body.length?.isSome then r.headers.values "transfer-encoding"
          else [Text.encode "chunked"]) ∧
      (passed.IsFramed ↔ r.IsFramable)) ∧
    ∀ (terminal : Request → Calling ω) (rest : List (Middleware Calling Request ω)),
      let front := retry advisor :: between ++ [contentLength]
      Step.chain terminal (front ++ rest) = (Step.chain terminal rest).behind front ∧
      ∀ remaining, RunsOn (fun sent => sent.IsFramed ↔ r.IsFramable) fun run =>
        ((⟨remaining, run⟩ : Next Calling Request ω).behind front).run r := by
  refine ⟨⟨addFraming r, fun _ => rfl, addFraming_eq r, fun _ => values_addFraming_of_ne, ?_, ?_,
    isFramed_addFraming_iff r⟩, fun terminal rest => ⟨?_, fun remaining => ?_⟩⟩
  · cases h : r.body.length? with
    | none => exact (values_addFraming_of_none h).1
    | some n => exact (values_addFraming_of_some h).1
  · cases h : r.body.length? with
    | none => exact (values_addFraming_of_none h).2
    | some n => exact (values_addFraming_of_some h).2
  · rw [chain_eq_behind, behind_append, ← chain_eq_behind]
  · have hkeeps : ∀ x ∈ retry advisor :: between, KeepsFraming x :=
      List.forall_mem_cons.2 ⟨keepsFraming_retry advisor, hbetween⟩
    have hframing : ∀ q, r.SameFraming q → RunsOn (fun sent => sent.IsFramed ↔ r.IsFramable)
        fun run : Request → Calling ω => contentLength.handle q ⟨remaining, run⟩ := fun q hq =>
      runsOn_run (addFraming q) ((isFramed_addFraming_iff q).trans hq.isFramable_iff)
    intro run run' hrun
    dsimp only
    rw [behind_append, behind_append]
    exact (runsOn_behind hkeeps r (remaining + 1)).comp hframing run run' hrun

def upload : Request :=
  { Request.empty with
    headers := .ofList [("Content-Length", Text.encode "3"), ("Transfer-Encoding", Text.encode "gzip")]
    body := .stream 0 none }

theorem contentLength_framing_upload :
    (∀ x ∈ ([signer] : List (Middleware Calling Request Nat)), KeepsFraming x) ∧ upload.IsFramable ∧
      RunsOn Request.IsFramed fun run : Request → Calling Nat => ((⟨0, run⟩ : Next _ _ _).behind
        (retry Advisor.standard :: [signer] ++ [contentLength])).run upload := by
  have hbetween : ∀ x ∈ ([signer] : List (Middleware Calling Request Nat)), KeepsFraming x :=
    List.forall_mem_singleton.2 keepsFraming_signer
  have hframable : upload.IsFramable := .inl rfl
  have hruns := ((contentLength_framing Advisor.standard hbetween upload).2 (fun _ => pure 0) []).2 0
  exact ⟨hbetween, hframable, hruns.mono fun sent hsent => hsent.2 hframable⟩

def greeting : Request :=
  { Request.empty with
    headers := .ofList [("Transfer-Encoding", Text.encode "chunked")]
    body := .data (Text.encode "hello") }

theorem not_isFramed_greeting :
    ¬ ∀ r passed : Request,
      contentLength.handle r ⟨0, pure⟩ = (pure passed : Calling Request) → passed.IsFramed := by
  intro h
  have hframed := (isFramed_addFraming_iff greeting).1 (h greeting _ rfl)
  have hnot : ¬ greeting.IsFramable := by
    rintro (hlength | hencoding)
    · cases hlength
    · exact absurd hencoding (by decide)
  exact hnot hframed

end Behind

end Pipeline

end ServiceClient
