import StencilForge.Proofs.Outcome
import StencilForge.Study.Server

/-!
# Proofs — runs that are handed out

A run is pending, with a client, or finished.  After any requests no run is in two places, and all
are kept as long as no request loses one (`Server.perm_held_after_iff`): fetching a run for a client
that still has another, or whose name cannot be kept, does (`Server.second_fetch_loses`).  A server
that stops as soon as all runs are done keeps them in the same way (`Server.held_serve`).  What a
request can do is said once, in `Server.handle_effect`.
-/

open List StencilForge.Action

namespace StencilForge

variable {a b : Json} {path : String} {p : Json × Study.Run}

/-! ### Names of clients -/

/-- The value of a number: a rational, or one of the two infinities. -/
def Number.worth? : Number → Option (Rat ⊕ Bool)
  | .rat q => some (.inl q)
  | .float b => some (.inl b.toRat)
  | .inf => some (.inr true)
  | .negInf => some (.inr false)
  | .nan => none

theorem Number.sameValue_iff {a b : Number} :
    a.sameValue b = true ↔ ∃ x, b.worth? = some x ∧ a.worth? = some x := by
  have hrat : ∀ x y : Rat, ((if x < y then Ordering.lt else if x = y then .eq else .gt) = .eq) ↔
    x = y := by
    intro x y
    by_cases h : x < y
    · simp [ne_of_lt h]
    · by_cases hxy : x = y <;> simp [hxy]
  cases a <;> cases b <;> simp [sameValue, compare?, worth?, toRat?, hrat]

namespace Study

/-- Equal numbers, the same text, or both nothing. -/
theorem sameValue_iff_of_name (ha : Server.isName a = true) (hb : Server.isName b = true) :
    sameValue a b = true ↔ (∃ x y, numberOf a = some x ∧ numberOf b = some y ∧
      x.sameValue y = true) ∨
      (a = .null ∧ b = .null) ∨ ∃ s, b = .str s ∧ a = .str s := by
  cases a <;> cases b <;> simp [sameValue, numberOf, Server.isName, BEq.beq, Json.beq,
    Json.alike] at *

theorem sameValue_of_common {c : Json} (ha : Server.isName a = true) (hb : Server.isName b = true)
    (hc : Server.isName c = true) (hac : sameValue a c = true) (hbc : sameValue b c = true) :
    sameValue a b = true := by
  rw [sameValue_iff_of_name ha hc] at hac
  rw [sameValue_iff_of_name hb hc] at hbc
  rw [sameValue_iff_of_name ha hb]
  rcases hac with ⟨x, z, hx, hz, hxz⟩ | ⟨rfl, rfl⟩ | ⟨s, rfl, rfl⟩
  · rcases hbc with ⟨y, z', hy, hz', hyz⟩ | ⟨-, rfl⟩ | ⟨t, rfl, -⟩
    · obtain rfl : z = z' := Option.mem_unique hz hz'
      obtain ⟨u, hzu, hxu⟩ := Number.sameValue_iff.1 hxz
      obtain ⟨v, hzv, hyv⟩ := Number.sameValue_iff.1 hyz
      obtain rfl : u = v := Option.mem_unique hzu hzv
      exact .inl ⟨x, y, hx, hy, Number.sameValue_iff.2 ⟨u, hyv, hxu⟩⟩
    · cases hz
    · cases hz
  · rcases hbc with ⟨y, z, -, hz, -⟩ | ⟨rfl, -⟩ | ⟨t, ht, -⟩
    · cases hz
    · exact .inr (.inl ⟨rfl, rfl⟩)
    · cases ht
  · rcases hbc with ⟨y, z, -, hz, -⟩ | ⟨-, ht⟩ | ⟨t, ht, rfl⟩
    · cases hz
    · cases ht
    · exact .inr (.inr ⟨t, rfl, ht ▸ rfl⟩)

namespace Server

variable {r : Request} {s t : Server} {message client : Json} {failed : Bool}

/-! ### Requests -/

def Request.message? (r : Request) (path : String) : Option Json :=
  if (r.method == "GET" || r.method == "POST") && r.path == path then r.body.toOption else none

def Request.client? (r : Request) (path : String) : Option Json :=
  (r.message? path).bind fun m => (entry m "client_name").toOption

def holder? (s : Server) (client : Json) :
    Option (Json × Run) := s.running.find? fun p => sameValue p.1 client

def others (s : Server) (client : Json) :
    List (Json × Run) := s.running.filter (!sameValue ·.1 client)

/-- It is for the parameters of the run, and nothing in it is missing. -/
structure Fits (message : Json) (r : Run) (record : Record) : Prop where
  params : ∃ ps, entry message "params" = .ok ps ∧ (ordered ps).compact = (ordered r.params).compact
  result : entry message "result" = .ok record.result
  env : ∃ e, entry message "env" = .ok e
  changed : entry message "changed_params" = .ok record.changed
  of : record.params = r.params

/-- The client still has another run, or its name cannot be kept. -/
def Loses (s : Server) (r : Request) : Prop :=
  ∃ client, r.client? "/next_scenario" = some client ∧ s.pending ≠ [] ∧
    (∃ n, work s.finished = .ok n) ∧
    (∃ n, work s.all = .ok n) ∧ (isName client = true → ∃ p, s.holder? client = some p)

/-- A result that does not fit the run of the client that sends it. -/
def Spoils (s : Server) (r : Request) : Prop :=
  ∃ message client p, r.message? "/result" = some message ∧
    entry message "client_name" = .ok client ∧
    isName client = true ∧ s.holder? client = some p ∧ ∀ record, ¬ Fits message p.2 record

/-! ### What a request does -/

inductive Effect (s : Server) (r : Request) : Server → Bool → Prop where
  | idle {failed : Bool} (hl : ¬ s.Loses r) (hs : ¬ s.Spoils r) : Effect s r s failed
  | fetch {client : Json} {run : Run} {rest : List Run} {line : String}
    (hclient : r.client? "/next_scenario" = some client)
      (hpending : s.pending = run :: rest) (hwork : (∃ n, work s.finished = .ok n) ∧ ∃ n,
        work s.all = .ok n)
      (hname : isName client = true) :
      Effect s r { s with pending := rest, running := s.others client ++ [(client, run)], lines := s.lines ++ [line] } false
  | lose {run : Run} {rest : List Run} {line : String} (hl : s.Loses r) (hpending : s.pending = run :: rest) :
      Effect s r { s with pending := rest, lines := s.lines ++ [line] } true
  | store {message client : Json} {p : Json × Run} {record : Record}
    (hmessage : r.message? "/result" = some message)
      (hclient : entry message "client_name" = .ok client) (hname : isName client = true)
      (hholder : s.holder? client = some p) (hfits : Fits message p.2 record) :
      Effect s r { s with finished := s.finished ++ [p.2], running := s.others client, archive := s.archive ++ [record] } false
  | spoil {client : Json} {p : Json × Run} (hs : s.Spoils r) (hname : isName client = true)
      (hholder : s.holder? client = some p) :
      Effect s r { s with finished := s.finished ++ [p.2], running := s.others client } true

theorem message?_eq_some (h : r.message? path = some message) :
    (r.method != "GET" && r.method != "POST") = false ∧ r.path = path ∧ r.body = .ok message := by
  rw [Request.message?] at h
  split_ifs at h with hr
  simp only [Bool.and_eq_true, Bool.or_eq_true, beq_iff_eq] at hr
  refine ⟨?_, hr.2, ?_⟩
  · rcases hr.1 with hr | hr <;> simp [hr]
  · cases hb : r.body with
    | error e => rw [hb] at h; cases h
    | ok m => rw [hb] at h; cases h; rfl

theorem not_spoils_of_path (h : r.path ≠ "/result") : ¬ s.Spoils r := by
  rintro ⟨m, c, p, hm, -⟩
  simp [Request.message?, h] at hm

theorem not_loses_of_path (h : r.path ≠ "/next_scenario") : ¬ s.Loses r := by
  rintro ⟨c, hc, -⟩
  simp [Request.client?, Request.message?, h] at hc

theorem not_loses_of_result (h : r.message? "/result" = some message) : ¬ s.Loses r := by
  refine not_loses_of_path ?_
  rw [(message?_eq_some h).2.1]
  decide

theorem fetch_effect (h : r.message? "/next_scenario" = some message)
    (hs : ¬ s.Spoils r) :
    Effect s r ((nextScenario message).perform s).1 (!((nextScenario message).perform s).2.isOk) := by
  have hclient : r.client? "/next_scenario" = (entry message "client_name").toOption := by rw [Request.client?, h]; rfl
  unfold nextScenario
  rw [perform_bind, perform_lift]
  cases hc : entry message "client_name" with
  | error e => exact .idle (fun ⟨c, hl, _⟩ => by rw [hclient, hc] at hl; cases hl) hs
  | ok client =>
    rw [hc] at hclient
    simp only [perform_bind, perform_get]
    cases hp : s.pending with
    | nil => exact .idle (fun ⟨_, _, hl, _⟩ => hl hp) hs
    | cons run rest =>
      cases hf : work s.finished with
      | error e => exact .idle (fun ⟨_, _, _, ⟨n, hl⟩, _⟩ => by rw [hf] at hl; cases hl) hs
      | ok m =>
        cases ha : work s.all with
        | error e => exact .idle (fun ⟨_, _, _, _, ⟨n, hl⟩, _⟩ => by rw [ha] at hl; cases hl) hs
        | ok n =>
          cases hn : isName client with
          | true => exact .fetch hclient hp ⟨⟨m, hf⟩, n, ha⟩ hn
          | false => exact .lose ⟨client, hclient, by simp [hp], ⟨m, hf⟩, ⟨n, ha⟩, fun h => absurd (hn.symm.trans h) (by decide)⟩ hp

theorem result_effect (h : r.message? "/result" = some message)
    (hl : ¬ s.Loses r) :
    Effect s r ((storeResult message).perform s).1 (!((storeResult message).perform s).2.isOk) := by
  have unnamed : (∀ client, entry message "client_name" = .ok client → isName client = true → s.holder? client = none) →
      ¬ s.Spoils r := by
    rintro hnone ⟨m, c, p, hm, hc, hn, hp, -⟩
    obtain rfl : message = m := Option.mem_unique h hm
    rw [hnone c hc hn] at hp
    cases hp
  unfold storeResult
  rw [perform_bind, perform_lift]
  cases hc : entry message "client_name" with
  | error e => exact .idle hl (unnamed fun c h => by rw [hc] at h; cases h)
  | ok client =>
    cases hn : isName client with
    | false =>
      simp only [hn]
      exact .idle hl (unnamed fun c h hn' => by rw [hc] at h; cases h; simp [hn] at hn')
    | true =>
      simp only [hn, Bool.not_true, Bool.false_eq_true, if_false]
      rw [perform_bind, perform_get]
      dsimp only
      cases hp : s.running.find? fun p => sameValue p.1 client with
      | none => exact .idle hl (unnamed fun c h _ => by rw [hc] at h; cases h; exact hp)
      | some p =>
        have spoil (hfit : ∀ record, ¬ Fits message p.2 record) : Effect s r
            { s with finished := s.finished ++ [p.2], running := s.others client } true :=
          .spoil ⟨message, client, p, h, hc, hn, hp, hfit⟩ hn hp
        simp only [perform_bind, perform_lift]
        cases hps : entry message "params" with
        | error e => exact spoil fun _ ⟨⟨_, hf, _⟩, _, _, _, _⟩ => by rw [hps] at hf; cases hf
        | ok ps =>
          by_cases hsame : (ordered ps).compact = (ordered p.2.params).compact
          · simp only [hsame, bne_self_eq_false]
            cases hr : entry message "result" with
            | error e => exact spoil fun _ hf => by have := hf.result; rw [hr] at this; cases this
            | ok result =>
              cases he : entry message "env" with
              | error e => exact spoil fun _ hf => by have ⟨_, hf⟩ := hf.env; rw [he] at hf; cases hf
              | ok env =>
                cases hch : entry message "changed_params" with
                | error e => exact spoil fun _ hf => by have := hf.changed; rw [hch] at this; cases this
                | ok changed => exact .store h hc hn hp ⟨⟨ps, hps, hsame⟩, hr, ⟨env, he⟩, hch, rfl⟩
          · simp only [hsame, bne_iff_ne, ne_eq]
            refine spoil fun _ ⟨⟨_, hf, hsame'⟩, _, _, _, _⟩ => ?_
            rw [hps] at hf
            cases hf
            exact hsame hsame'

theorem handle_of_action {f : Json → Action Server Json}
    (hm : r.message? path = some message) (hf : action? path = some f) :
    (s.handle r).1 = ((f message).perform s).1 ∧
    (s.handle r).2.failure.isSome = !((f message).perform s).2.isOk := by
  obtain ⟨hmethod, rfl, hbody⟩ := message?_eq_some hm
  unfold handle
  rw [hmethod, hf, hbody]
  dsimp only
  rw [perform_bind, perform_lift]
  refine ⟨rfl, ?_⟩
  cases ((f message).perform s).2 <;> rfl

theorem handle_idle (hfetch : r.message? "/next_scenario" = none)
    (hresult : r.message? "/result" = none) : (s.handle r).1 = s := by
  have unread (path : String) (h : r.message? path = none)
    (hm : ¬ (r.method != "GET" && r.method != "POST") = true)
      (hp : r.path = path) : ∃ e, r.body = .error e := by
    have hmethod : r.method = "GET" ∨ r.method = "POST" := by
      simpa only [bne, Bool.and_eq_true, Bool.not_eq_true', beq_eq_false_iff_ne, not_and_or,
        not_not] using hm
    cases hb : r.body with
    | error e => exact ⟨e, rfl⟩
    | ok m => rcases hmethod with hmethod | hmethod <;> simp [Request.message?, hmethod, hp, hb,
      Except.toOption] at h
  unfold handle
  split_ifs with hm
  · rfl
  · cases hf : action? r.path with
    | none => rfl
    | some f =>
      obtain ⟨e, he⟩ : ∃ e, r.body = .error e := by
        unfold action? at hf
        split at hf
        · exact unread _ hfetch hm ‹_›
        · exact unread _ hresult hm ‹_›
        · cases hf
      rw [he]
      dsimp only
      rw [perform_bind, perform_lift]

theorem handle_effect (s : Server) (r : Request) : Effect s r (s.handle r).1 (s.handle r).2.failure.isSome := by
  cases hfetch : r.message? "/next_scenario" with
  | some message =>
    obtain ⟨h₁, h₂⟩ := handle_of_action hfetch rfl
    rw [h₁, h₂]
    refine fetch_effect hfetch (not_spoils_of_path ?_)
    rw [(message?_eq_some hfetch).2.1]
    decide
  | none =>
    cases hresult : r.message? "/result" with
    | some message =>
      obtain ⟨h₁, h₂⟩ := handle_of_action hresult rfl
      rw [h₁, h₂]
      exact result_effect hresult (not_loses_of_result hresult)
    | none =>
      rw [handle_idle hfetch hresult]
      refine .idle ?_ ?_
      · rintro ⟨c, hc, -⟩
        rw [Request.client?, hfetch] at hc
        cases hc
      · rintro ⟨m, c, p, hm, -⟩
        rw [hresult] at hm
        cases hm

/-! ### Any number of requests -/

def after (s : Server) (rs : List Request) : Server := rs.foldl (fun s r => (s.handle r).1) s

@[simp] theorem after_nil (s : Server) : s.after [] = s := rfl

@[simp] theorem after_cons (s : Server) (r : Request) (rs : List Request) :
    s.after (r :: rs) = (s.handle r).1.after rs := rfl

/-- None of the requests does something to the server that it meets. -/
def Avoids (s : Server) (P : Server → Request → Prop) (rs : List Request) : Prop :=
  ∀ before r, before ++ [r] <+: rs → ¬ P (s.after before) r

theorem avoids_nil (s : Server) (P : Server → Request → Prop) : s.Avoids P [] := by
  intro before r h
  simp at h

theorem avoids_cons {P : Server → Request → Prop} {rs : List Request} :
    s.Avoids P (r :: rs) ↔ ¬ P s r ∧ (s.handle r).1.Avoids P rs := by
  constructor
  · intro h
    refine ⟨h [] r ⟨rs, rfl⟩, fun before q hq => h (r :: before) q ?_⟩
    exact cons_prefix_cons.2 ⟨rfl, hq⟩
  · rintro ⟨hr, h⟩ before q hq
    cases before with
    | nil =>
      obtain ⟨rfl, -⟩ := cons_prefix_cons.1 hq
      exact hr
    | cons b before =>
      obtain ⟨rfl, hrest⟩ := cons_prefix_cons.1 hq
      exact h before q hrest

/-- A server stops when its runs are done: it answers the requests of a prefix. -/
theorem serve_eq_after (s : Server) (rs : List Request) :
    ∃ answered, answered <+: rs ∧ (s.serve rs).1 = s.after answered := by
  induction rs generalizing s with
  | nil => exact ⟨[], nil_prefix, rfl⟩
  | cons r rs ih =>
    by_cases hd : s.isDone = true
    · exact ⟨[r], ⟨rs, rfl⟩, by simp [serve, hd]⟩
    · obtain ⟨answered, hpre, hs⟩ := ih (s.handle r).1
      exact ⟨r :: answered, cons_prefix_cons.2 ⟨rfl, hpre⟩, by simpa [serve, hd] using hs⟩

/-! ### Runs that are kept -/

def held (s : Server) : List Run := s.pending ++ s.running.map (·.2) ++ s.finished

structure Distinct (s : Server) : Prop where
  names : ∀ p ∈ s.running, isName p.1 = true
  apart : s.running.Pairwise fun p q => sameValue p.1 q.1 = false

theorem others_eq_running (h : s.holder? client = none) : s.others client = s.running := by
  rw [holder?, find?_eq_none] at h
  exact filter_eq_self.2 (by simpa using h)

theorem Distinct.running_perm (hs : s.Distinct) (hn : isName client = true)
    (hp : s.holder? client = some p) : s.running.Perm (p :: s.others client) := by
  obtain ⟨hpc, before, behind, hr, hbefore⟩ := find?_eq_some_iff_append.1 hp
  have hapart := hs.apart
  rw [hr, pairwise_append, pairwise_cons] at hapart
  have hbehind : ∀ q ∈ behind, (!sameValue q.1 client) = true := by
    intro q hq
    by_contra hqc
    have hsame := sameValue_of_common (hs.names p (by simp [hr]))
      (hs.names q (by simp [hr, hq])) hn hpc (by simpa using hqc)
    rw [hapart.2.1.1 q hq] at hsame
    cases hsame
  have hothers : s.others client = before ++ behind := by
    rw [others, hr, filter_append, filter_cons_of_neg (by simpa using hpc),
      filter_eq_self.2 hbefore,
      filter_eq_self.2 hbehind]
  rw [hothers, hr]
  exact perm_middle

theorem Distinct.others (hs : s.Distinct) (client : Json) : Distinct { s with running := s.others client } :=
  ⟨fun p hp => hs.names p (mem_of_mem_filter hp), hs.apart.filter _⟩

theorem Effect.distinct (h : Effect s r t failed) (hs : s.Distinct) : t.Distinct := by
  cases h with
  | idle => exact hs
  | @fetch client run rest line hclient hpending hwork hname =>
    have ho := hs.others client
    refine ⟨forall_mem_append.2 ⟨ho.names, forall_mem_singleton.2 hname⟩,
      pairwise_append.2 ⟨ho.apart, pairwise_singleton .., fun p hp q hq => ?_⟩⟩
    rw [mem_singleton.1 hq]
    simpa using (mem_filter.1 hp).2
  | lose => exact ⟨hs.names, hs.apart⟩
  | store => exact ⟨(hs.others _).names, (hs.others _).apart⟩
  | spoil => exact ⟨(hs.others _).names, (hs.others _).apart⟩

/-- A request loses at most one run, and one that loses none moves runs from one place to another.
-/
theorem Effect.held_perm (h : Effect s r t failed) (hs : s.Distinct) :
    ∃ lost, s.held.Perm (lost ++ t.held) ∧ (lost = [] ↔ ¬ s.Loses r) := by
  have delivered {client : Json} {p : Json × Run} (hn : isName client = true)
    (hp : s.holder? client = some p) :
      s.held.Perm (s.pending ++ (s.others client).map (·.2) ++ (s.finished ++ [p.2])) := by
    have hr := (hs.running_perm hn hp).map (·.2)
    calc s.held
      _ |>.Perm (s.pending ++ (p.2 :: (s.others client).map (·.2)) ++ s.finished) :=
        (hr.append_left _).append_right _
      _ |>.Perm (s.pending ++ (s.others client).map (·.2) ++ (s.finished ++ [p.2])) := by
          have hlast : ([p.2] ++ ((s.others client).map (·.2) ++ s.finished)).Perm _ :=
            perm_append_comm
          simpa only [append_assoc, cons_append, nil_append] using hlast.append_left s.pending
  have fetched {run : Run} {rest : List Run} (hpending : s.pending = run :: rest) :
      s.held.Perm (rest ++ (s.running.map (·.2) ++ [run]) ++ s.finished) := by
    have hlast : ([run] ++ (rest ++ s.running.map (·.2))).Perm _ := perm_append_comm
    simpa only [held, hpending, append_assoc, cons_append,
      nil_append] using hlast.append_right s.finished
  cases h with
  | idle hl => exact ⟨[], .refl _, by simp [hl]⟩
  | @fetch client run rest line hclient hpending hwork hname =>
    cases hp : s.holder? client with
    | none =>
      refine ⟨[], by simpa [held, others_eq_running hp] using fetched hpending, ?_⟩
      simp only [true_iff]
      rintro ⟨c, hc, -, -, -, hl⟩
      obtain rfl : client = c := Option.mem_unique hclient hc
      obtain ⟨p, hl⟩ := hl hname
      rw [hp] at hl
      cases hl
    | some p =>
      refine ⟨[p.2], (fetched hpending).trans ?_, ?_⟩
      · have hr := (hs.running_perm hname hp).map (·.2)
        have hmiddle := ((hr.append_right [run]).append_left rest).append_right s.finished
        refine hmiddle.trans ?_
        simp [held]
      · have hl : s.Loses r := ⟨client, hclient,
          by simp [hpending], hwork.1, hwork.2, fun _ => ⟨p, hp⟩⟩
        simp [hl]
  | @lose run rest line hl hpending => exact ⟨[run], by simp [held, hpending], by simp [hl]⟩
  | store hm hc hn hp hfits => exact ⟨[], delivered hn hp, by simp [not_loses_of_result hm]⟩
  | spoil hspoil hn hp =>
    obtain ⟨m, -, -, hm, -⟩ := hspoil
    exact ⟨[], delivered hn hp, by simp [not_loses_of_result hm]⟩

theorem held_after (s : Server) (hs : s.Distinct) (rs : List Request) :
    ∃ lost, s.held.Perm (lost ++ (s.after rs).held) ∧ (lost = [] ↔ s.Avoids Loses rs) := by
  induction rs generalizing s with
  | nil => exact ⟨[], .refl _, by simp [avoids_nil]⟩
  | cons r rs ih =>
    have heffect := handle_effect s r
    obtain ⟨one, hone, hone_nil⟩ := heffect.held_perm hs
    obtain ⟨more, hmore, hmore_nil⟩ := ih _ (heffect.distinct hs)
    refine ⟨one ++ more, ?_, ?_⟩
    · rw [append_assoc]
      exact hone.trans (hmore.append_left one)
    · rw [append_eq_nil_iff, hone_nil, hmore_nil, avoids_cons]

theorem held_serve (s : Server) (hs : s.Distinct) (rs : List Request) :
    ∃ answered lost, answered <+: rs ∧ s.held.Perm (lost ++ (s.serve rs).1.held) ∧
      (lost = [] ↔ s.Avoids Loses answered) := by
  obtain ⟨answered, hpre, hserve⟩ := serve_eq_after s rs
  obtain ⟨lost, hlost, hnil⟩ := held_after s hs answered
  exact ⟨answered, lost, hpre, hserve ▸ hlost, hnil⟩

/-- No run is ever in two places, and all of them are kept as long as no request loses one. -/
theorem perm_held_after_iff (runs : List Run) (archive : Archive) (rs : List Request) :
    ((start runs archive).after rs).held.Subperm runs ∧
      (((start runs archive).after rs).held.Perm runs ↔ (start runs archive).Avoids Loses rs) := by
  obtain ⟨lost, hlost, hnil⟩ := held_after (start runs archive) ⟨nofun, .nil⟩ rs
  have hstart : (start runs archive).held = runs := by simp [held, start]
  rw [hstart] at hlost
  refine ⟨(sublist_append_right lost _).subperm.trans hlost.symm.subperm, ?_⟩
  rw [← hnil]
  constructor
  · intro hperm
    have hlength := (hperm.trans hlost).length_eq
    rw [length_append] at hlength
    exact length_eq_zero_iff.1 (by omega)
  · rintro rfl
    exact hlost.symm

/-- A client that has a run and fetches another one: the first is neither pending, nor with a
client, nor finished. -/
theorem second_fetch_loses :
    let fetch : Request := ⟨"POST", "/next_scenario", .ok (.obj [("client_name", .str "a")])⟩
    let first : Run := ⟨.obj [("p", .int 1)], .int 1⟩
    let second : Run := ⟨.obj [("p", .int 2)], .int 1⟩
    ((start [first, second] []).after [fetch, fetch]).held = [second] := by
  rfl

end Server

end Study

end StencilForge
