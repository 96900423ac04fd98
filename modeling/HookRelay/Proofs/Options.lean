import Mathlib.Data.List.TakeWhile
import HookRelay.Options
import HookRelay.Proofs.Intake
/-!
Command lines as assignments. The ways to write an option with its value are listed here
without regard to how they are read; a command line that is made up of them has the effect of
its assignments one after another, and no other command line gives options.
-/

namespace HookRelay.Options

namespace Key

def name : Key → String
  | config => "config"
  | listen => "listen"
  | room => "room"
  | heartbeatInterval => "heartbeat-interval"
  | heartbeatTimeout => "heartbeat-timeout"
  | logLevel => "log-level"

def letter? : Key → Option Char
  | config => some 'c'
  | listen => some 'l'
  | room => some 'r'
  | _ => none

/-- The arguments that name an option and nothing else. -/
inductive Named (k : Key) : String → Prop
  | long : Named k ("--" ++ k.name)
  | short {c : Char} (hc : k.letter? = some c) : Named k (String.ofList ['-', c])

/-- The arguments that name an option and give it a value. The value may follow a letter
at once, if it is not empty and its beginning is not taken for the sign between the two. -/
inductive Joined (k : Key) (v : String) : String → Prop
  | assigned {w : String} (hw : k.Named w) : Joined k v (w ++ "=" ++ v)
  | attached {c : Char} (hc : k.letter? = some c) (hne : v ≠ "")
      (hv : v.toList.head? ≠ some '=') : Joined k v (String.ofList ['-', c] ++ v)

end Key

/-- The arguments that can be values on their own. -/
def Plain (arg : String) : Prop := arg = "-" ∨ arg.toList.head? ≠ some '-'

/-- The assignments that a command line is made up of. Two dashes may end it. -/
inductive Reads : List String → List (Key × String) → Prop
  | nil : Reads [] []
  | dashes : Reads ["--"] []
  | joined {k : Key} {v arg : String} {args : List String} {as : List (Key × String)}
      (h : k.Joined v arg) (hrest : Reads args as) : Reads (arg :: args) ((k, v) :: as)
  | apart {k : Key} {v arg : String} {args : List String} {as : List (Key × String)}
      (h : k.Named arg) (hv : Plain v) (hrest : Reads args as) :
      Reads (arg :: v :: args) ((k, v) :: as)

/-- One assignment. -/
def assign (o : Options) (a : Key × String) : Except OptionsError Options := o.set a.1 a.2

variable {o : Options} {k : Key} {v arg : String} {c : Char} {args : List String}
  {as : List (Key × String)}

section Names

theorem Switch.ofLong?_eq_valued_iff {s : String} :
    Switch.ofLong? s = some (.valued k) ↔ s = k.name := by
  constructor
  · intro h
    unfold Switch.ofLong? at h
    split at h <;> cases h <;> rfl
  · rintro rfl
    cases k <;> rfl

theorem Switch.ofShort?_eq_valued_iff :
    Switch.ofShort? c = some (.valued k) ↔ k.letter? = some c := by
  constructor
  · intro h
    unfold Switch.ofShort? at h
    split at h <;> cases h <;> rfl
  · cases k <;> rintro ⟨⟩ <;> rfl

theorem Key.name_ne_nil (k : Key) : k.name.toList ≠ [] := by
  cases k <;> decide

theorem Key.all_name (k : Key) : ∀ c ∈ k.name.toList, (c != '=') = true := by
  apply List.all_eq_true.mp
  cases k <;> decide

theorem Key.letter?_ne_dash (hc : k.letter? = some c) : c ≠ '-' := by
  cases k <;> cases hc <;> decide

end Names

namespace Draft

variable {d d' : Draft} {body rest : List Char}

/-- What a draft comes to when the line ends. -/
def finish (d : Draft) : Except OptionsError Options := do
  return (← d.resolve).options

section Arguments

theorem add_long (hd : d.escaped = false) (hbody : body ≠ [])
    (harg : arg.toList = '-' :: '-' :: body) : d.add arg = d.long body := by
  obtain ⟨c, cs, rfl⟩ := List.exists_cons_of_ne_nil hbody
  rw [add, hd, harg]
  rfl

theorem add_short (hd : d.escaped = false) (hc : c ≠ '-')
    (harg : arg.toList = '-' :: c :: rest) : d.add arg = d.short c rest := by
  rw [add, hd, harg]
  simp [hc]

theorem add_plain (hd : d.escaped = false) (harg : Plain arg) : d.add arg = d.plain arg := by
  rw [add, hd]
  rcases harg with rfl | harg
  · rfl
  · cases hcs : arg.toList with
    | nil => rfl
    | cons c cs =>
        rw [hcs, List.head?_cons, Ne, Option.some.injEq] at harg
        simp [harg]

theorem add_dashes (hd : d.escaped = false) : d.add "--" = .ok { d with escaped := true } := by
  rw [add, hd]
  rfl

theorem long_name : d.long k.name.toList = d.option k none := by
  have htake : k.name.toList.takeWhile (· != '=') = k.name.toList :=
    List.takeWhile_eq_self_iff.mpr k.all_name
  have hdrop : k.name.toList.dropWhile (· != '=') = [] :=
    List.dropWhile_eq_nil_iff.mpr k.all_name
  rw [long, htake, hdrop, String.ofList_toList, Switch.ofLong?_eq_valued_iff.mpr rfl]

theorem long_assigned : d.long (k.name.toList ++ '=' :: v.toList) = d.option k (some v) := by
  have htake : (k.name.toList ++ '=' :: v.toList).takeWhile (· != '=') = k.name.toList := by
    rw [List.takeWhile_append_of_pos k.all_name, List.takeWhile_cons_of_neg (by decide),
      List.append_nil]
  have hdrop : (k.name.toList ++ '=' :: v.toList).dropWhile (· != '=') = '=' :: v.toList := by
    rw [List.dropWhile_append_of_pos k.all_name, List.dropWhile_cons_of_neg (by decide)]
  rw [long, htake, hdrop, String.ofList_toList, Switch.ofLong?_eq_valued_iff.mpr rfl]
  simp only [String.ofList_toList]

theorem add_named (hd : d.escaped = false) (h : k.Named arg) : d.add arg = d.option k none := by
  cases h with
  | long =>
      rw [add_long hd k.name_ne_nil (by rw [String.toList_append]; rfl), long_name]
  | short hc =>
      rw [add_short hd (Key.letter?_ne_dash hc) (by rw [String.toList_ofList]), short,
        Switch.ofShort?_eq_valued_iff.mpr hc]

theorem add_joined (hd : d.escaped = false) (h : k.Joined v arg) :
    d.add arg = d.option k (some v) := by
  cases h with
  | assigned hw =>
      cases hw with
      | long =>
          have harg : ("--" ++ k.name ++ "=" ++ v).toList =
              '-' :: '-' :: (k.name.toList ++ '=' :: v.toList) := by
            simp [String.toList_append]
          rw [add_long hd (List.append_ne_nil_of_left_ne_nil k.name_ne_nil _) harg, long_assigned]
      | @short c hc =>
          have harg : (String.ofList ['-', c] ++ "=" ++ v).toList =
              '-' :: c :: '=' :: v.toList := by
            simp [String.toList_append]
          rw [add_short hd (Key.letter?_ne_dash hc) harg, short,
            Switch.ofShort?_eq_valued_iff.mpr hc]
          simp only [String.ofList_toList]
  | @attached c hc hne hv =>
      obtain ⟨b, bs, hbs⟩ := List.exists_cons_of_ne_nil (mt String.toList_eq_nil_iff.mp hne)
      have hb : b ≠ '=' := by
        rintro rfl
        exact hv (by rw [hbs, List.head?_cons])
      have harg : (String.ofList ['-', c] ++ v).toList = '-' :: c :: b :: bs := by
        simp [String.toList_append, hbs]
      rw [add_short hd (Key.letter?_ne_dash hc) harg, short, Switch.ofShort?_eq_valued_iff.mpr hc]
      · simp only [← hbs, String.ofList_toList]
      · exact List.cons_ne_nil b bs
      · rintro cs ⟨⟩
        exact hb rfl

theorem switch_ne_ok {e : OptionsError} : d.switch e ≠ .ok d' := by
  intro h
  obtain ⟨d₁, -, h⟩ := exists_of_bind_eq_ok h
  cases h

theorem cases_of_long (harg : arg.toList = '-' :: '-' :: body) (h : d.long body = .ok d') :
    (∃ k v, k.Joined v arg ∧ d.option k (some v) = .ok d') ∨
      ∃ k, k.Named arg ∧ d.option k none = .ok d' := by
  have hbody : body.takeWhile (· != '=') ++ body.dropWhile (· != '=') = body :=
    List.takeWhile_append_dropWhile
  have hsep := List.head?_dropWhile_not (· != '=') body
  rcases hname : Switch.ofLong? (String.ofList (body.takeWhile (· != '='))) with - | k | - | -
  · simp only [long, hname] at h
    cases h
  · have htake : body.takeWhile (· != '=') = k.name.toList := by
      rw [← Switch.ofLong?_eq_valued_iff.mp hname, String.toList_ofList]
    simp only [long, hname] at h
    cases hdrop : body.dropWhile (· != '=') with
    | nil =>
        rw [htake, hdrop, List.append_nil] at hbody
        rw [hdrop] at h
        obtain rfl : arg = "--" ++ k.name := by
          apply String.toList_inj.mp
          simp [harg, ← hbody, String.toList_append]
        exact .inr ⟨k, .long, h⟩
    | cons c cs =>
        rw [htake, hdrop] at hbody
        rw [hdrop] at h hsep
        have hc : c = '=' := by simpa using hsep
        obtain rfl : arg = "--" ++ k.name ++ "=" ++ String.ofList cs := by
          apply String.toList_inj.mp
          simp [harg, ← hbody, hc, String.toList_append]
        exact .inl ⟨k, _, .assigned .long, h⟩
  all_goals
    simp only [long, hname] at h
    split_ifs at h
    exact absurd h switch_ne_ok

theorem cases_of_short (harg : arg.toList = '-' :: c :: rest) (h : d.short c rest = .ok d') :
    (∃ k v, k.Joined v arg ∧ d.option k (some v) = .ok d') ∨
      ∃ k, k.Named arg ∧ d.option k none = .ok d' := by
  rcases hname : Switch.ofShort? c with - | k | - | -
  · simp only [short, hname] at h
    cases h
  · have hletter := Switch.ofShort?_eq_valued_iff.mp hname
    simp only [short, hname] at h
    split at h
    · obtain rfl : arg = String.ofList ['-', c] := by
        apply String.toList_inj.mp
        rw [harg, String.toList_ofList]
      exact .inr ⟨k, .short hletter, h⟩
    · next cs =>
        obtain rfl : arg = String.ofList ['-', c] ++ "=" ++ String.ofList cs := by
          apply String.toList_inj.mp
          simp [harg, String.toList_append]
        exact .inl ⟨k, _, .assigned (.short hletter), h⟩
    · next hne hsep =>
        obtain rfl : arg = String.ofList ['-', c] ++ String.ofList rest := by
          apply String.toList_inj.mp
          simp [harg, String.toList_append]
        refine .inl ⟨k, _, .attached hletter (mt String.ofList_eq_empty_iff.mp hne) ?_, h⟩
        rw [String.toList_ofList, Ne, List.head?_eq_some_iff]
        rintro ⟨cs, hcs⟩
        exact hsep cs hcs
  all_goals
    simp only [short, hname] at h
    exact absurd h switch_ne_ok

theorem cases_of_add (hd : d.escaped = false) (h : d.add arg = .ok d') :
    (arg = "--" ∧ d' = { d with escaped := true }) ∨ (Plain arg ∧ d.plain arg = .ok d') ∨
      (∃ k v, k.Joined v arg ∧ d.option k (some v) = .ok d') ∨
        ∃ k, k.Named arg ∧ d.option k none = .ok d' := by
  by_cases hplain : Plain arg
  · rw [add_plain hd hplain] at h
    exact .inr (.inl ⟨hplain, h⟩)
  obtain ⟨hne, hhead⟩ := not_or.mp hplain
  obtain ⟨cs, hcs⟩ := List.head?_eq_some_iff.mp (not_not.mp hhead)
  rcases cs with - | ⟨c, rest⟩
  · exact absurd (String.toList_inj.mp hcs) hne
  by_cases hc : c = '-'
  · subst hc
    by_cases hrest : rest = []
    · subst hrest
      obtain rfl : arg = "--" := String.toList_inj.mp hcs
      rw [add_dashes hd] at h
      cases h
      exact .inl ⟨rfl, rfl⟩
    · rw [add_long hd hrest hcs] at h
      exact .inr (.inr (cases_of_long hcs h))
  · rw [add_short hd hc hcs] at h
    exact .inr (.inr (cases_of_short hcs h))

end Arguments

section Lines

theorem finish_waiting :
    ({ options := o, pending := some (k, some v) } : Draft).finish = o.set k v := by
  simp only [finish, resolve]
  cases o.set k v <;> rfl

/-- A draft comes to the same whether the two dashes have been met or not. -/
theorem finish_escaped : ({ d with escaped := true } : Draft).finish = d.finish := by
  obtain ⟨options, pending, escaped⟩ := d
  rcases pending with - | ⟨k, - | v⟩
  · rfl
  · rfl
  · simp only [finish, resolve]
    cases options.set k v <;> rfl

theorem resolve_eq (hd : d.escaped = false) :
    d.resolve = d.finish >>= fun o => pure { options := o } := by
  obtain ⟨options, pending, escaped⟩ := d
  subst hd
  rcases pending with - | ⟨k, - | v⟩
  · rfl
  · rfl
  · simp only [finish, resolve]
    cases options.set k v <;> rfl

theorem option_some (hd : d.escaped = false) : d.option k (some v) =
    d.finish >>= fun o => o.set k v >>= fun o => pure { options := o } := by
  rw [option, resolve_eq hd, bind_assoc]
  rfl

theorem option_none (hd : d.escaped = false) : d.option k none =
    d.finish >>= fun o => pure { options := o, pending := some (k, none) } := by
  rw [option, resolve_eq hd, bind_assoc]
  rfl

theorem run_of_reads (h : Reads args as) (hd : d.escaped = false) :
    (args.foldlM add d >>= finish) = d.finish >>= fun o => as.foldlM assign o := by
  induction h generalizing d with
  | nil =>
      rw [List.foldlM_nil, pure_bind]
      exact (bind_pure d.finish).symm
  | dashes =>
      rw [List.foldlM_cons, add_dashes hd]
      exact finish_escaped.trans (bind_pure d.finish).symm
  | @joined k v arg args as h hrest ih =>
      rw [List.foldlM_cons, add_joined hd h, option_some hd]
      simp only [bind_assoc, pure_bind]
      refine bind_congr fun o => ?_
      rw [List.foldlM_cons]
      exact bind_congr fun o' => ih rfl
  | @apart k v arg args as h hv hrest ih =>
      rw [List.foldlM_cons, add_named hd h, option_none hd]
      simp only [bind_assoc, pure_bind]
      refine bind_congr fun o => ?_
      -- the value waits in the draft until the next step asks for it
      rw [List.foldlM_cons, add_plain rfl hv]
      refine (ih rfl).trans ?_
      rw [finish_waiting]
      rfl

theorem finish_ne_ok (hd : d.pending = some (k, none)) : d.finish ≠ .ok o := by
  rw [finish, resolve, hd]
  nofun

theorem nil_of_escaped (hd : d.escaped = true) (h : args.foldlM add d = .ok d') : args = [] := by
  cases args with
  | nil => rfl
  | cons arg args =>
      rw [List.foldlM_cons, add, hd] at h
      cases h

/-- A line that is read to its end consists of assignments, behind the value that an option
waits for. -/
theorem exists_reads_of_run (h : args.foldlM add d = .ok d') (hfinish : d'.finish = .ok o)
    (hd : d.escaped = false) :
    ((∀ k, d.pending ≠ some (k, none)) ∧ ∃ as, Reads args as) ∨
      ∃ k v rest as, d.pending = some (k, none) ∧ args = v :: rest ∧ Plain v ∧
        Reads rest as := by
  -- an option that waits is carried along, because what follows has to begin with its value
  induction args generalizing d with
  | nil =>
      cases h
      exact .inl ⟨fun k hk => finish_ne_ok hk hfinish, [], .nil⟩
  | cons arg args ih =>
      rw [List.foldlM_cons] at h
      obtain ⟨d₁, hadd, hrun⟩ := exists_of_bind_eq_ok h
      rcases cases_of_add hd hadd with ⟨rfl, rfl⟩ | ⟨hplain, hvalue⟩ |
        ⟨k, v, hjoined, hoption⟩ | ⟨k, hnamed, hoption⟩
      · obtain rfl := nil_of_escaped rfl hrun
        cases hrun
        rw [finish_escaped] at hfinish
        exact .inl ⟨fun k hk => finish_ne_ok hk hfinish, [], .dashes⟩
      · unfold plain at hvalue
        split at hvalue
        · next k hpending =>
            cases hvalue
            rcases ih hrun hd with ⟨-, as, hreads⟩ | ⟨k', v', rest, as, ⟨⟩, -⟩
            exact .inr ⟨k, arg, args, as, hpending, rfl, hplain, hreads⟩
        · cases hvalue
      · rw [option_some hd] at hoption
        obtain ⟨o₁, hfinish₁, hoption⟩ := exists_of_bind_eq_ok hoption
        obtain ⟨o₂, -, ⟨⟩⟩ := exists_of_bind_eq_ok hoption
        rcases ih hrun rfl with ⟨-, as, hreads⟩ | ⟨k', v', rest, as, ⟨⟩, -⟩
        exact .inl ⟨fun k hk => finish_ne_ok hk hfinish₁, (k, v) :: as,
          .joined hjoined hreads⟩
      · rw [option_none hd] at hoption
        obtain ⟨o₁, hfinish₁, ⟨⟩⟩ := exists_of_bind_eq_ok hoption
        rcases ih hrun rfl with ⟨hwaits, -⟩ | ⟨_, v, rest, as, ⟨⟩, rfl, hplain, hreads⟩
        · exact absurd rfl (hwaits k)
        · exact .inl ⟨fun k hk => finish_ne_ok hk hfinish₁, (k, v) :: as,
            .apart hnamed hplain hreads⟩

end Lines

end Draft

theorem parse_of_reads (h : Reads args as) : parse args = as.foldlM assign {} :=
  Draft.run_of_reads h rfl

theorem exists_reads (h : parse args = .ok o) : ∃ as, Reads args as := by
  obtain ⟨d, hrun, hfinish⟩ := exists_of_bind_eq_ok h
  rcases Draft.exists_reads_of_run hrun hfinish rfl with ⟨-, hreads⟩ |
    ⟨k, v, rest, as, ⟨⟩, -⟩
  exact hreads

end HookRelay.Options
