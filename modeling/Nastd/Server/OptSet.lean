import Nastd.Server.Io

/-!
# Setting options

`do_opt_set` of `server/nastdio.c` walks over the arguments of an OPTSET request two
bytes at a time and sets each option as it meets it. What it is for: either every pair
is applied, in order, and the client gets NASTOK, or nothing changes and it gets
NASTERR (`AllOrNothing`).

An unknown option stops the walk, but what was set before it stays set; and the last
option of an odd number of bytes gets its value from the byte behind the request.
`all_or_nothing_iff` is when neither shows.
-/

namespace Nastd.Server

/-! ## Options as a map -/

/-- The option with this number; `none` where there is none. -/
def NastOptions.flag (opts : NastOptions) (option : Byte) : Option Bool :=
  if option = OPTQCACHE then some opts.useQcache
  else if option = OPTLOCALDB then some opts.useLocaldb
  else if option = OPTFALLASYNC then some opts.fallthroughAsync
  else if option = OPTALWAYSFALL then some opts.alwaysFallthrough
  else if option = OPTFAILONCE then some opts.failOnce
  else if option = OPTNOFALLTHROUGH then some opts.noFallthrough
  else none

/-- `do_opt_set` has a case for it. -/
def knownOption (option : Byte) : Bool := (defaultOpts.flag option).isSome

/-- The pairs of the arguments. -/
def optPairs : Bytes → List (Byte × Byte)
  | option :: value :: rest => (option, value) :: optPairs rest
  | _ => []

/-- The options named in the arguments, the last without its value where their number is
odd. -/
def optNames : Bytes → List Byte
  | option :: _ :: rest => option :: optNames rest
  | [option] => [option]
  | [] => []

/-- The last value these pairs give an option. -/
def lastValue (pairs : List (Byte × Byte)) (option : Byte) : Option Bool :=
  (pairs.reverse.find? fun p => decide (p.1 = option)).map fun p => decide (p.2 ≠ OPTFALSE)

/-- What the pairs, applied in order, make of an option: the last one wins. -/
def NastOptions.flagAfter (opts : NastOptions) (pairs : List (Byte × Byte)) (option : Byte) :
    Option Bool :=
  (lastValue pairs option).or (opts.flag option)

/-- The loop of `do_opt_set`, with the positions it reads, from `i` on. -/
def setOptsReads (behind : Byte) : Nat → NastOptions → Bytes → List Nat × NastOptions × Bool
  | _, opts, [] => ([], opts, true)
  | i, opts, [option] =>
    match setOpt opts option behind with
    | none => ([i], opts, false)
    | some opts' => ([i, i + 1], opts', true)
  | i, opts, option :: value :: rest =>
    match setOpt opts option value with
    | none => ([i], opts, false)
    | some opts' =>
      let r := setOptsReads behind (i + 2) opts' rest
      (i :: (i + 1) :: r.1, r.2)

/-- All or nothing, for one request. -/
structure AllOrNothing (reqid : UInt16) (opts : NastOptions) (buffer : Bytes)
    (after : Nat → Byte) : Prop where
  outcome :
    ((doOptSet reqid opts buffer after).1.sent = [responseFrame reqid NASTOK []] ∧
      ∀ option, (doOptSet reqid opts buffer after).2.flag option
        = opts.flagAfter (optPairs buffer) option) ∨
    ((doOptSet reqid opts buffer after).1.sent
        = [responseFrame reqid NASTERR [ascii "Sent unknown option"]] ∧
      (doOptSet reqid opts buffer after).2 = opts)
  reads : ∀ i ∈ (setOptsReads (after 0) 0 opts buffer).1, i < buffer.length

/-- The pairs before the first unknown option. -/
def knownPairs (buffer : Bytes) : List (Byte × Byte) :=
  (optPairs buffer).takeWhile fun p => knownOption p.1

/-- All options are known and all have a value, or the last value given to each of those
before the first unknown one is the one it has. -/
def Settable (opts : NastOptions) (buffer : Bytes) : Prop :=
  if (optNames buffer).all knownOption = true then buffer.length % 2 = 0
  else ∀ option value, lastValue (knownPairs buffer) option = some value →
    opts.flag option = some value

/-! ## One option -/

section One

variable {opts opts' : NastOptions} {option value : Byte}

/-- Which options there are does not depend on their values. -/
theorem flag_isSome (opts : NastOptions) (option : Byte) :
    (opts.flag option).isSome = knownOption option := by
  unfold knownOption NastOptions.flag
  repeat' split
  all_goals rfl

/-- Options with the same values are the same. -/
theorem NastOptions.ext_flag (h : ∀ option, opts'.flag option = opts.flag option) :
    opts' = opts := by
  obtain ⟨q, l, a, f, o, n⟩ := opts
  obtain ⟨q', l', a', f', o', n'⟩ := opts'
  obtain rfl := Option.some.inj (h OPTQCACHE)
  obtain rfl := Option.some.inj (h OPTLOCALDB)
  obtain rfl := Option.some.inj (h OPTFALLASYNC)
  obtain rfl := Option.some.inj (h OPTALWAYSFALL)
  obtain rfl := Option.some.inj (h OPTFAILONCE)
  obtain rfl := Option.some.inj (h OPTNOFALLTHROUGH)
  rfl

theorem knownOption_cases (h : knownOption option = true) :
    option = OPTQCACHE ∨ option = OPTLOCALDB ∨ option = OPTFALLASYNC ∨ option = OPTALWAYSFALL ∨
      option = OPTFAILONCE ∨ option = OPTNOFALLTHROUGH := by
  by_contra hnone
  simp only [not_or] at hnone
  obtain ⟨hq, hl, ha, hf, ho, hn⟩ := hnone
  unfold knownOption NastOptions.flag at h
  rw [if_neg hq, if_neg hl, if_neg ha, if_neg hf, if_neg ho, if_neg hn] at h
  exact absurd h (by simp)

theorem setOpt_unknown (h : knownOption option = false) : setOpt opts option value = none := by
  have hne : ∀ o : Byte, knownOption o = true → option ≠ o := by
    intro o ho he
    rw [he, ho] at h
    exact absurd h (by simp)
  unfold setOpt
  dsimp only
  rw [if_neg (hne _ rfl), if_neg (hne _ rfl), if_neg (hne _ rfl), if_neg (hne _ rfl),
    if_neg (hne _ rfl), if_neg (hne _ rfl)]

/-- One pair sets its option and no other. -/
theorem setOpt_known (opts : NastOptions) (value : Byte) (h : knownOption option = true) :
    ∃ opts', setOpt opts option value = some opts' ∧
      ∀ o, opts'.flag o = if o = option then some (decide (value ≠ OPTFALSE)) else opts.flag o := by
  have hother : ∀ {o : Byte} (opts₁ : NastOptions), knownOption o ≠ true →
      opts₁.flag o = if o = option then some (decide (value ≠ OPTFALSE)) else opts.flag o := by
    intro o opts₁ ho
    have hne : o ≠ option := fun he => ho (by rw [he, h])
    rw [if_neg hne]
    have hnone : ∀ opts₂ : NastOptions, opts₂.flag o = none := by
      intro opts₂
      cases hf : opts₂.flag o with
      | none => rfl
      | some b =>
        have hs := flag_isSome opts₂ o
        rw [hf] at hs
        exact absurd hs.symm ho
    rw [hnone, hnone]
  rcases knownOption_cases h with rfl | rfl | rfl | rfl | rfl | rfl
  all_goals
    refine ⟨_, rfl, fun o => ?_⟩
    by_cases ho : knownOption o = true
    · rcases knownOption_cases ho with rfl | rfl | rfl | rfl | rfl | rfl
      all_goals rfl
    · exact hother _ ho

end One

/-! ## Pairs in order -/

/-- A pair in front counts where no later one is for its option. -/
theorem flagAfter_cons {opts opts' : NastOptions} {option value : Byte}
    (hset : ∀ o, opts'.flag o
      = if o = option then some (decide (value ≠ OPTFALSE)) else opts.flag o)
    (pairs : List (Byte × Byte)) (o : Byte) :
    opts'.flagAfter pairs o = opts.flagAfter ((option, value) :: pairs) o := by
  unfold NastOptions.flagAfter lastValue
  rw [List.reverse_cons, List.find?_append, hset]
  cases pairs.reverse.find? fun p => decide (p.1 = o) with
  | some p => rfl
  | none =>
    by_cases ho : o = option
    · simp [ho]
    · have hne : ¬ option = o := fun h => ho h.symm
      simp [ho, hne]

/-- The record changes nothing. -/
theorem setOptsReads_eq (behind : Byte) (i : Nat) (opts : NastOptions) (buffer : Bytes) :
    (setOptsReads behind i opts buffer).2 = setOpts behind opts buffer := by
  fun_induction setOptsReads behind i opts buffer with
  | case1 => rfl
  | case2 i opts option h => rw [setOpts, h]
  | case3 i opts option opts' h => rw [setOpts, h]
  | case4 i opts option value rest h => rw [setOpts, h]
  | case5 i opts option value rest opts' h r ih =>
    rw [setOpts, h]
    exact ih

section Walk

variable {buffer : Bytes} (behind : Byte) (i : Nat) (opts : NastOptions)

/-- With known options only, every pair is applied; a lone last option makes the walk read
behind the arguments. -/
theorem setOptsReads_known (hall : ∀ option ∈ optNames buffer, knownOption option = true) :
    (setOptsReads behind i opts buffer).2.2 = true ∧
      (buffer.length % 2 = 0 →
        (∀ o, (setOptsReads behind i opts buffer).2.1.flag o
          = opts.flagAfter (optPairs buffer) o) ∧
        ∀ j ∈ (setOptsReads behind i opts buffer).1, j < i + buffer.length) ∧
      (buffer.length % 2 ≠ 0 → i + buffer.length ∈ (setOptsReads behind i opts buffer).1) := by
  fun_induction setOptsReads behind i opts buffer with
  | case1 i opts =>
    refine ⟨rfl, fun _ => ⟨fun o => rfl, fun j hj => absurd hj (by simp)⟩, fun h => ?_⟩
    exact absurd rfl h
  | case2 i opts option h =>
    obtain ⟨opts', hset, -⟩ := setOpt_known opts behind
      (hall option (by simp [optNames]))
    rw [h] at hset
    exact absurd hset (by simp)
  | case3 i opts option opts' h =>
    exact ⟨rfl, fun hodd => absurd hodd (by simp), fun _ => by simp⟩
  | case4 i opts option value rest h =>
    obtain ⟨opts', hset, -⟩ := setOpt_known opts value
      (hall option (by simp [optNames]))
    rw [h] at hset
    exact absurd hset (by simp)
  | case5 i opts option value rest opts' h r ih =>
    obtain ⟨opts₁, hset, hflag⟩ := setOpt_known opts value
      (hall option (by simp [optNames]))
    rw [h] at hset
    obtain rfl := Option.some.inj hset
    obtain ⟨hend, heven, hodd⟩ := ih fun o ho => hall o (by simp [optNames, ho])
    have hlen : (option :: value :: rest).length = rest.length + 2 := rfl
    rw [hlen]
    refine ⟨hend, fun he => ?_, fun he => ?_⟩
    · obtain ⟨hflags, hreads⟩ := heven (by omega)
      refine ⟨fun o => ?_, fun j hj => ?_⟩
      · rw [hflags o, optPairs, flagAfter_cons hflag]
      · simp only [List.mem_cons] at hj
        rcases hj with rfl | rfl | hj
        · omega
        · omega
        · have hlt := hreads j hj
          omega
    · have hmem := hodd (by omega)
      have hpos : i + (rest.length + 2) = i + 2 + rest.length := by omega
      rw [hpos]
      exact List.mem_cons_of_mem _ (List.mem_cons_of_mem _ hmem)

/-- An unknown option ends the walk, behind the pairs before it. -/
theorem setOptsReads_unknown
    (hsome : ¬ ∀ option ∈ optNames buffer, knownOption option = true) :
    (setOptsReads behind i opts buffer).2.2 = false ∧
      (∀ o, (setOptsReads behind i opts buffer).2.1.flag o
        = opts.flagAfter (knownPairs buffer) o) ∧
      ∀ j ∈ (setOptsReads behind i opts buffer).1, j < i + buffer.length := by
  fun_induction setOptsReads behind i opts buffer with
  | case1 i opts => exact absurd (fun o ho => absurd ho (by simp [optNames])) hsome
  | case2 i opts option h => exact ⟨rfl, fun o => rfl, fun j hj => by simp_all⟩
  | case3 i opts option opts' h =>
    refine absurd (fun o ho => ?_) hsome
    obtain rfl : o = option := by simpa [optNames] using ho
    cases hk : knownOption o with
    | true => rfl
    | false =>
      rw [setOpt_unknown hk] at h
      exact absurd h (by simp)
  | case4 i opts option value rest h =>
    have hun : knownOption option = false := by
      cases hk : knownOption option with
      | false => rfl
      | true =>
        obtain ⟨opts', hset, -⟩ := setOpt_known opts value hk
        rw [h] at hset
        exact absurd hset (by simp)
    have hnone : knownPairs (option :: value :: rest) = [] := by
      simp [knownPairs, optPairs, hun]
    refine ⟨rfl, fun o => ?_, fun j hj => ?_⟩
    · rw [hnone]
      rfl
    · obtain rfl := List.mem_singleton.mp hj
      simp
  | case5 i opts option value rest opts' h r ih =>
    have hk : knownOption option = true := by
      cases hk : knownOption option with
      | true => rfl
      | false =>
        rw [setOpt_unknown hk] at h
        exact absurd h (by simp)
    obtain ⟨opts₁, hset, hflag⟩ := setOpt_known opts value hk
    rw [h] at hset
    obtain rfl := Option.some.inj hset
    have hrest : ¬ ∀ o ∈ optNames rest, knownOption o = true := by
      intro hall
      refine hsome fun o ho => ?_
      rw [optNames] at ho
      rcases List.mem_cons.mp ho with rfl | ho
      · exact hk
      · exact hall o ho
    obtain ⟨hend, hflags, hreads⟩ := ih hrest
    have hpairs : knownPairs (option :: value :: rest) = (option, value) :: knownPairs rest := by
      simp [knownPairs, optPairs, hk]
    refine ⟨hend, fun o => ?_, fun j hj => ?_⟩
    · rw [hflags o, hpairs, flagAfter_cons hflag]
    · simp only [List.length_cons]
      simp only [List.mem_cons] at hj
      rcases hj with rfl | rfl | hj
      · omega
      · omega
      · have hlt := hreads j hj
        omega

end Walk

/-! ## All or nothing -/

section Request

variable (reqid : UInt16) (opts : NastOptions) (buffer : Bytes) (after : Nat → Byte)

/-- The reply says whether the walk got to the end. -/
theorem doOptSet_sent :
    (doOptSet reqid opts buffer after).1.sent
        = [if (setOpts (after 0) opts buffer).2 = true then responseFrame reqid NASTOK []
          else responseFrame reqid NASTERR [ascii "Sent unknown option"]] ∧
      (doOptSet reqid opts buffer after).2 = (setOpts (after 0) opts buffer).1 := by
  have hok : Fits [] := by decide
  have herr : Fits [ascii "Sent unknown option"] := by decide
  unfold doOptSet
  dsimp only
  split
  · exact ⟨by rw [sendResponse_eq, if_pos hok], rfl⟩
  · refine ⟨?_, rfl⟩
    show (sendResponse reqid NASTERR [ascii "Sent unknown option"]).sent = _
    rw [sendResponse_eq, if_pos herr]

theorem okFrame_ne_errorFrame :
    responseFrame reqid NASTOK [] ≠ responseFrame reqid NASTERR [ascii "Sent unknown option"] := by
  intro h
  have hlen := congrArg List.length h
  exact absurd hlen (by simp [responseFrame, joinItems, ascii])

/-- **When setting options is all or nothing.** If and only if all options are known and
each has a value, or there is an unknown one and the pairs before it set nothing to
another value than it has. -/
theorem all_or_nothing_iff : AllOrNothing reqid opts buffer after ↔ Settable opts buffer := by
  have hrec := setOptsReads_eq (after 0) 0 opts buffer
  obtain ⟨hsent, hopts⟩ := doOptSet_sent reqid opts buffer after
  unfold Settable
  by_cases hall : ∀ option ∈ optNames buffer, knownOption option = true
  · obtain ⟨hend, heven, hodd⟩ := setOptsReads_known (after 0) 0 opts hall
    rw [if_pos (List.all_eq_true.mpr hall)]
    rw [Nat.zero_add] at heven hodd
    rw [hrec] at hend heven
    constructor
    · intro h
      by_contra hne
      exact absurd (h.reads _ (hodd hne)) (Nat.lt_irrefl _)
    · intro he
      obtain ⟨hflags, hreads⟩ := heven he
      refine ⟨Or.inl ⟨?_, fun o => ?_⟩, hreads⟩
      · rw [hsent, if_pos hend]
      · rw [hopts, hflags]
  · obtain ⟨hend, hflags, hreads⟩ := setOptsReads_unknown (after 0) 0 opts hall
    rw [if_neg fun h => hall (List.all_eq_true.mp h)]
    rw [Nat.zero_add] at hreads
    rw [hrec] at hend hflags
    constructor
    · intro h option value hlast
      rcases h.outcome with ⟨hok, -⟩ | ⟨-, hsame⟩
      · rw [hsent, hend] at hok
        exact absurd (List.singleton_inj.mp hok).symm (okFrame_ne_errorFrame reqid)
      · rw [hopts] at hsame
        have hflag := hflags option
        rw [hsame] at hflag
        rw [hflag, NastOptions.flagAfter, hlast]
        rfl
    · intro hlast
      refine ⟨Or.inr ⟨?_, ?_⟩, hreads⟩
      · rw [hsent, hend]
        rfl
      · rw [hopts]
        refine NastOptions.ext_flag fun o => ?_
        rw [hflags o]
        unfold NastOptions.flagAfter
        cases hv : lastValue (knownPairs buffer) o with
        | none => rfl
        | some value => exact (hlast o value hv).symm

end Request

/-- An option before an unknown one stays set although the client is told of an error. -/
theorem some_and_error :
    ¬ ∀ (reqid : UInt16) (opts : NastOptions) (buffer : Bytes) (after : Nat → Byte),
      AllOrNothing reqid opts buffer after := by
  intro h
  rcases (h 1 defaultOpts [OPTNOFALLTHROUGH, OPTTRUE, 0x09, OPTTRUE] fun _ => 0).outcome with
    ⟨hok, -⟩ | ⟨-, hsame⟩
  · exact absurd hok (by decide)
  · exact absurd hsame (by decide)

end Nastd.Server
