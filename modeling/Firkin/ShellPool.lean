import Firkin.CoreTypes
import Firkin.FaultMonad

/-! # Pools of retained shells

A pool opens its shells one after the other. Nothing closes a shell but a call: a handle that is
dropped leaves its process running. -/
namespace ShellPool

open Ext4Types FaultMonad List

inductive Error where
  | unsupported (operation : Str)
  | processFailure (operation : Str) (sandboxId : Option Str) (reason : Str)
  | backend (reason : Str)

/-- `processes` tells whether the backend can run processes at all. -/
structure ProcessClient where
  sandboxId : Str
  processes : Bool

/-- What one attempt to start a shell meets: the drawn name and the backend's answer. -/
structure Start where
  uuid : Str
  answer : Except Error Unit

/-- The state is the tags of the shell processes that run. -/
abbrev Run := EStateM Error (List Str)
def validTag (tag : Str) : Bool := !tag.isEmpty && tag.length ≤ 128 && tag.all CoreTypes.isIdByte
def Start.tag (start : Start) : Str := str "fk-shell-" ++ start.uuid

/-- `shell_with` with the default options. -/
def shell (client : ProcessClient) (start : Start) : Run Str := do
  if !client.processes then throw (.unsupported (str "open retained shell"))
  if !validTag start.tag then
    throw (.processFailure (str "open retained shell") none (str "invalid retained shell tag"))
  MonadExcept.ofExcept start.answer
  modify (start.tag :: ·)
  return start.tag

def new (shells : List Str) : Except Error (List Str) :=
  if shells.isEmpty then
    .error (.processFailure (str "create retained shell pool") none
      (str "retained shell pool requires at least one shell"))
  else .ok shells

/-- `starts` has what each pass of the loop meets, so its length is the size asked for. -/
def openPool (client : ProcessClient) (starts : List Start) : Run (List Str) := do
  if starts.length = 0 then
    throw (.processFailure (str "open retained shell pool") (some client.sandboxId)
      (str "retained shell pool size must be greater than zero"))
  let shells ← starts.mapM (shell client)
  MonadExcept.ofExcept (new shells)

/-- A failure leaves the processes that ran before, a success adds one for each of the shells. -/
def AllOrNothing (client : ProcessClient) (starts : List Start) (running : List Str) : Prop :=
  match openPool client starts running with
  | .error _ after => after = running
  | .ok pool after => pool.length = starts.length ∧ after = pool.reverse ++ running

def Succeeds (client : ProcessClient) (start : Start) : Prop :=
  client.processes = true ∧ validTag start.tag = true ∧ start.answer.isOk = true

variable {client : ProcessClient} {start : Start} {running : List Str}

theorem shell_of_succeeds (h : Succeeds client start) :
    shell client start running = .ok start.tag (start.tag :: running) := by
  obtain ⟨hprocesses, htag, hanswer⟩ := h
  unfold shell
  rw [hprocesses, htag]
  cases hstart : start.answer with
  | error e =>
    rw [hstart] at hanswer
    cases hanswer
  | ok u => rfl

theorem shell_of_fails (h : ¬Succeeds client start) :
    ∃ e, shell client start running = .error e running := by
  unfold shell
  cases hprocesses : client.processes with
  | false => exact ⟨_, rfl⟩
  | true =>
    cases htag : validTag start.tag with
    | false => exact ⟨_, rfl⟩
    | true =>
      cases hstart : start.answer with
      | error e => exact ⟨e, rfl⟩
      | ok u => exact absurd ⟨hprocesses, htag, by rw [hstart]; rfl⟩ h

/-- The loop goes on as long as the starts succeed. -/
theorem mapM_succeeding (rest : List Start) (h : ∀ start ∈ starts, Succeeds client start) :
    (starts ++ rest).mapM (shell client) running =
      (rest.mapM (shell client) >>= fun tags => pure (starts.map Start.tag ++ tags))
        ((starts.map Start.tag).reverse ++ running) := by
  induction starts generalizing running with
  | nil =>
    change rest.mapM (shell client) running = (rest.mapM (shell client) >>= pure) running
    rw [bind_pure]
  | cons start starts ih =>
    obtain ⟨hstart, hstarts⟩ := forall_mem_cons.mp h
    rw [cons_append, mapM_cons, bind_of_ok (shell_of_succeeds hstart), run_bind, ih hstarts,
      run_bind, run_bind, map_cons, reverse_cons, append_assoc,
      singleton_append]
    cases rest.mapM (shell client) ((starts.map Start.tag).reverse ++ start.tag :: running) with
    | error e t => rfl
    | ok tags t => rfl

theorem succeed_or_fail (client : ProcessClient) (starts : List Start) :
    (∀ start ∈ starts, Succeeds client start) ∨
      ∃ before start rest, starts = before ++ start :: rest ∧
        (∀ start ∈ before, Succeeds client start) ∧ ¬Succeeds client start := by
  induction starts with
  | nil => exact .inl fun _ h => absurd h not_mem_nil
  | cons start starts ih =>
    by_cases hstart : Succeeds client start
    · rcases ih with hall | ⟨before, failing, rest, rfl, hbefore, hfails⟩
      · exact .inl (forall_mem_cons.mpr ⟨hstart, hall⟩)
      · exact .inr ⟨start :: before, failing, rest, rfl,
          forall_mem_cons.mpr ⟨hstart, hbefore⟩, hfails⟩
    · exact .inr ⟨[], start, starts, rfl, fun _ h => absurd h not_mem_nil, hstart⟩

theorem openPool_eq (h : starts ≠ []) :
    openPool client starts running =
      (starts.mapM (shell client) >>= fun shells => MonadExcept.ofExcept (new shells)) running := by
  cases starts with
  | nil => exact absurd rfl h
  | cons start starts => rfl

/-- A pool opens completely or not at all exactly if no start fails after the first succeeded. -/
theorem allOrNothing_iff (client : ProcessClient) (starts : List Start) (running : List Str) :
    AllOrNothing client starts running ↔
      ∀ first ∈ starts.head?, Succeeds client first →
        ∀ start ∈ starts, Succeeds client start := by
  unfold AllOrNothing
  rcases succeed_or_fail client starts with hall | ⟨before, failing, rest, rfl, hbefore, hfails⟩
  · refine iff_of_true ?_ fun _ _ _ => hall
    cases starts with
    | nil => rfl
    | cons start starts =>
      have hrun := @mapM_succeeding client running _ [] hall
      rw [append_nil, mapM_nil, pure_bind, append_nil] at hrun
      rw [openPool_eq (cons_ne_nil _ _), bind_of_ok hrun]
      exact ⟨length_map _, rfl⟩
  · obtain ⟨e, hfail⟩ := @shell_of_fails client failing ((before.map Start.tag).reverse ++ running)
      hfails
    have hrun := @mapM_succeeding client running _ (failing :: rest) hbefore
    rw [mapM_cons, bind_assoc, bind_of_error hfail] at hrun
    rw [openPool_eq (by simp), bind_of_error hrun]
    cases before with
    | nil =>
      refine iff_of_true rfl fun first hfirst hsucceeds => ?_
      cases hfirst
      exact absurd hsucceeds hfails
    | cons start before =>
      refine iff_of_false (fun h => ?_) fun h => ?_
      · have hlength := congrArg length h
        simp at hlength
        omega
      · exact hfails (h start rfl (hbefore start mem_cons_self) failing (by simp))

def twoStarts : List Start := [⟨str "a", .ok ()⟩, ⟨str "b", .error (.backend (str "refused"))⟩]

/-- The second start fails, and the first shell keeps running. -/
theorem shell_left_running : ¬AllOrNothing ⟨str "sbx", true⟩ twoStarts [] := by
  intro h
  have hafter : [str "fk-shell-a"] = [] := h
  cases hafter

end ShellPool
