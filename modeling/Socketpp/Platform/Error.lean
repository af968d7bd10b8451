import Socketpp.Platform

/-!
# Error codes

`std::error_code` values and `normalize_error` (`src/platform/error.cpp`),
which maps the operating system's codes to `socketpp::errc` if they come in the
system category and leaves every other category alone.

`connect_async` delivers errors on two paths. If `::connect` fails at once,
`connect_impl` (`src/socket/tcp_connector.cpp`) normalises `errno`, in the
system category. If the connection fails later, the callback of
`connect_async_impl` (`src/socket/tcp_connect_async.cpp`) normalises `SO_ERROR`,
which it puts into the generic category on POSIX. So the same failure is
reported alike only where both are in the system category, on Windows
(`connect_errors_agree_iff`).
-/

namespace Socketpp

inductive Errc where
  | success
  | wouldBlock
  | inProgress
  | connectionReset
  | connectionRefused
  | connectionAborted
  | notConnected
  | addressInUse
  | networkUnreachable
  | timedOut
  | optionNotSupported
  | alreadyBound
  | peerNotFound
  | invalidState
  | interrupted
  | fdLimitReached
  | missingScopeId
  | invalidArgument
  deriving DecidableEq, Repr

def Errc.value : Errc → Int
  | success => 0
  | wouldBlock => 1
  | inProgress => 2
  | connectionReset => 3
  | connectionRefused => 4
  | connectionAborted => 5
  | notConnected => 6
  | addressInUse => 7
  | networkUnreachable => 8
  | timedOut => 9
  | optionNotSupported => 10
  | alreadyBound => 11
  | peerNotFound => 12
  | invalidState => 13
  | interrupted => 14
  | fdLimitReached => 15
  | missingScopeId => 16
  | invalidArgument => 17

inductive Category where
  | generic
  | system
  | socketpp
  deriving DecidableEq, Repr

/-- `std::error_code`. -/
structure ErrorCode where
  value : Int
  category : Category
  deriving DecidableEq, Repr

def makeErrorCode (e : Errc) : ErrorCode := ⟨e.value, .socketpp⟩

/-- The platforms the library is built for. -/
inductive Os where
  | linux
  | macos
  | windows
  deriving DecidableEq, Repr

namespace Os

/-- The `case` labels of `normalize_error`, with the platform's numbers. -/
def cases : Os → List (Int × Errc)
  | linux =>
    [(11, .wouldBlock),          -- EAGAIN, EWOULDBLOCK
      (115, .inProgress),        -- EINPROGRESS
      (104, .connectionReset),   -- ECONNRESET
      (111, .connectionRefused), -- ECONNREFUSED
      (103, .connectionAborted), -- ECONNABORTED
      (107, .notConnected),      -- ENOTCONN
      (98, .addressInUse),       -- EADDRINUSE
      (101, .networkUnreachable), -- ENETUNREACH
      (110, .timedOut),          -- ETIMEDOUT
      (4, .interrupted),         -- EINTR
      (24, .fdLimitReached),     -- EMFILE
      (23, .fdLimitReached)]     -- ENFILE
  | macos =>
    [(35, .wouldBlock),
      (36, .inProgress),
      (54, .connectionReset),
      (61, .connectionRefused),
      (53, .connectionAborted),
      (57, .notConnected),
      (48, .addressInUse),
      (51, .networkUnreachable),
      (60, .timedOut),
      (4, .interrupted),
      (24, .fdLimitReached),
      (23, .fdLimitReached)]
  | windows =>
    [(10035, .wouldBlock), -- WSAEWOULDBLOCK, and so on
      (10036, .inProgress),
      (10054, .connectionReset),
      (10061, .connectionRefused),
      (10053, .connectionAborted),
      (10057, .notConnected),
      (10048, .addressInUse),
      (10051, .networkUnreachable),
      (10060, .timedOut),
      (10004, .interrupted),
      (10024, .fdLimitReached)]

/-- The codes with which `connect` says that it goes on in the background. -/
def inProgress : Os → List Int
  | linux => [115, 11]
  | macos => [36, 35]
  | windows => [10036, 10035]

/-- The category `connect_async_impl` puts `SO_ERROR` into. -/
def soErrorCategory : Os → Category
  | windows => .system
  | linux | macos => .generic

end Os

/-- `last_socket_error`. -/
def lastSocketError (errno : Int) : ErrorCode := ⟨errno, .system⟩

def normalizeError (os : Os) (ec : ErrorCode) : ErrorCode :=
  if ec.value = 0 then ec
  else if ec.category ≠ .system then ec
  else match os.cases.lookup ec.value with
    | some e => makeErrorCode e
    | none => ec

/-- `connect_impl`: `rc` is `none` if `::connect` returns zero, or `errno`. In
the last two error cases it closes the socket it has made. -/
def connectImpl (os : Os) (create : Except ErrorCode Fd) (applyTo : Except ErrorCode Unit)
    (rc : Option Int) : Except ErrorCode Fd :=
  match create with
  | .error ec => .error ec
  | .ok fd =>
    match applyTo with
    | .error ec => .error ec
    | .ok () =>
      match rc with
      | none => .ok fd
      | some errno =>
        let ec := normalizeError os (lastSocketError errno)
        let ec := if ec = makeErrorCode .wouldBlock then makeErrorCode .inProgress else ec
        if ec = makeErrorCode .inProgress then .ok fd else .error ec

/-- What the I/O callback of `connect_async_impl` makes of `getsockopt`: `errno` if the
call fails, or `SO_ERROR`. -/
def soErrorResult (os : Os) : Except Int Int → Except ErrorCode Unit
  | .error errno => .error (normalizeError os (lastSocketError errno))
  | .ok soError =>
    if soError ≠ 0 then .error (normalizeError os ⟨soError, os.soErrorCategory⟩) else .ok ()

/-! ## The two paths -/

theorem normalizeError_of_category {os : Os} {ec : ErrorCode} (h : ec.category ≠ .system) :
    normalizeError os ec = ec := by
  unfold normalizeError
  split <;> rfl

/-- No code is normalised into the generic category. -/
theorem normalizeError_ne_generic (os : Os) {ec : ErrorCode} (h : ec.category = .system) :
    (normalizeError os ec).category ≠ .generic := by
  unfold normalizeError
  split
  · rw [h]; rintro ⟨⟩
  · split
    · rw [h]; rintro ⟨⟩
    · split
      · rintro ⟨⟩
      · rw [h]; rintro ⟨⟩

theorem Errc.value_injective {e e' : Errc} (h : e.value = e'.value) : e = e' := by
  cases e <;> cases e' <;> first | rfl | cases h

theorem normalizeError_eq_iff {os : Os} {code : Int} (h0 : code ≠ 0) (e : Errc) :
    normalizeError os (lastSocketError code) = makeErrorCode e ↔
      os.cases.lookup code = some e := by
  simp only [normalizeError, lastSocketError, if_neg h0, ne_eq, not_true_eq_false, if_false]
  cases hl : os.cases.lookup code with
  | none => exact iff_of_false (by rintro ⟨⟩) (by rintro ⟨⟩)
  | some e' =>
    constructor
    · intro h
      rw [Errc.value_injective (congrArg ErrorCode.value h)]
    · rintro ⟨⟩
      rfl

theorem cases_inProgress (os : Os) : ∀ p ∈ os.cases, p.2 = .wouldBlock ∨ p.2 = .inProgress →
    p.1 ∈ os.inProgress := by
  cases os <;> decide

/-- Only the in-progress codes are mapped to `would_block` or `in_progress`. -/
theorem normalizeError_failed {os : Os} {code : Int} (h0 : code ≠ 0) (h : code ∉ os.inProgress)
    {e : Errc} (he : e = .wouldBlock ∨ e = .inProgress) :
    normalizeError os (lastSocketError code) ≠ makeErrorCode e := by
  intro heq
  obtain ⟨l₁, l₂, hl, -⟩ := List.lookup_eq_some_iff.1 ((normalizeError_eq_iff h0 e).1 heq)
  exact h (cases_inProgress os (code, e) (by rw [hl]; simp) he)

/-- The error of a result, if it is one. -/
def errorOf {α : Type} : Except ErrorCode α → Option ErrorCode
  | .error ec => some ec
  | .ok _ => none

/-- **`::connect` fails at once.** -/
theorem errorOf_connectImpl {os : Os} {code : Int} (h0 : code ≠ 0) (h : code ∉ os.inProgress)
    (fd : Fd) : errorOf (connectImpl os (.ok fd) (.ok ()) (some code)) =
      some (normalizeError os (lastSocketError code)) := by
  have hw := normalizeError_failed h0 h (.inl rfl)
  have hp := normalizeError_failed h0 h (.inr rfl)
  simp only [connectImpl, if_neg hw, if_neg hp]
  rfl

/-- **The connection fails later.** -/
theorem errorOf_soErrorResult {os : Os} {code : Int} (h0 : code ≠ 0) :
    errorOf (soErrorResult os (.ok code)) =
      some (normalizeError os ⟨code, os.soErrorCategory⟩) := by
  simp only [soErrorResult, ne_eq, h0, not_false_eq_true, if_true]
  rfl

/-- **When the two paths agree.** For every code but zero and the in-progress
codes: the error delivered when the connection fails later with `SO_ERROR = e`
is the one delivered when `::connect` fails at once with `errno = e`, if and
only if the platform is Windows. On POSIX the first is in the generic category
and the second is not, whether or not `normalize_error` maps the code. -/
theorem connect_errors_agree_iff (os : Os) (e : Int) (h0 : e ≠ 0) (h : e ∉ os.inProgress)
    (fd : Fd) :
    errorOf (soErrorResult os (.ok e)) =
        errorOf (connectImpl os (.ok fd) (.ok ()) (some e)) ↔
      os = .windows := by
  rw [errorOf_soErrorResult h0, errorOf_connectImpl h0 h, Option.some.injEq]
  constructor
  · intro heq
    by_contra hw
    have hcat : os.soErrorCategory = .generic := by
      cases os with
      | windows => exact absurd rfl hw
      | linux | macos => rfl
    rw [hcat, normalizeError_of_category (by rintro ⟨⟩)] at heq
    exact normalizeError_ne_generic os rfl (congrArg ErrorCode.category heq).symm
  · rintro rfl
    rfl

/-- Windows, `WSAECONNREFUSED`. -/
theorem connect_errors_agree_windows :
    (10061 : Int) ∉ Os.windows.inProgress ∧
      errorOf (soErrorResult .windows (.ok 10061)) =
        errorOf (connectImpl .windows (.ok 5) (.ok ()) (some 10061)) :=
  ⟨by decide, (connect_errors_agree_iff .windows 10061 (by decide) (by decide) 5).2 rfl⟩

/-- Linux, `ECONNREFUSED`: `errc::connection_refused` if `::connect` fails at once, and
`std::errc::connection_refused` in the generic category if the connection fails later. -/
theorem connect_refused_differs :
    errorOf (connectImpl .linux (.ok 5) (.ok ()) (some 111)) =
        some (makeErrorCode .connectionRefused) ∧
      errorOf (soErrorResult .linux (.ok 111)) = some ⟨111, .generic⟩ ∧
      (⟨111, .generic⟩ : ErrorCode) ≠ makeErrorCode .connectionRefused := by
  decide

end Socketpp
