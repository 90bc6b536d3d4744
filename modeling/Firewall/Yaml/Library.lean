import Firewall.Yaml.Builtin
import Firewall.Text.Quoted

/-!
# Modules named in YAML documents

A `!!python/name:` tag names an object by the path of its module and its
own name, and a `!!python/module:` tag names a module.  Beside the module of
built-in objects, a document may name the modules `sys`, `os`, `os.path`
(whose own name is `posixpath`, and which is also found under that name),
`string` and `math`, with their built-in functions, constants and classes,
as the interpreter has them on a 64-bit Linux system.  None of these
modules is a package, so no module path goes below one of them.

Main definitions:

- `Yaml.Module`: a module, its name, how it shows and its objects;
- `Yaml.Library.find?`: the module of a path.
-/

namespace Firewall
namespace Yaml

/-- A module that a document may name: its own name, how it shows, and the
object of each name it has. -/
structure Module where
  name : String
  shown : String
  find? : String → Option Value

namespace Module

/-- A module as a value. -/
def value (m : Module) : Value := .named "module" m.shown

/-- A module whose objects are built-in functions of the names given and a
table, its own name among them. -/
def ofTable (name shown : String) (functions : List String) (objects : List (String × Value)) : Module :=
  ⟨name, shown, fun n =>
    if functions.contains n then some (Builtin.functionValue n)
    else ((("__name__", .str name) :: objects).find? (·.1 == n)).map (·.2)⟩

end Module

namespace Library

/-- A module as a value, by how it shows. -/
def moduleValue (shown : String) : Value := .named "module" shown

/-- How the interpreter's own module shows. -/
def sysShown : String := "<module \u0027sys\u0027 (built-in)>"

/-- How the module of operating system services shows. -/
def osShown : String := "<module \u0027os\u0027 (frozen)>"

/-- How the module of path operations shows. -/
def posixpathShown : String := "<module \u0027posixpath\u0027 (frozen)>"

/-- The module of built-in objects. -/
def builtins : Module :=
  ⟨Builtin.moduleName, "<module \u0027builtins\u0027 (built-in)>", Builtin.find?⟩

/-- The functions of the interpreter's own module. -/
def sysFunctions : List String := [
   "addaudithook", "audit", "breakpointhook", "call_tracing", "displayhook", "exc_info",
   "excepthook", "exception", "exit", "get_asyncgen_hooks", "get_coroutine_origin_tracking_depth",
   "get_int_max_str_digits", "getallocatedblocks", "getdefaultencoding", "getdlopenflags",
   "getfilesystemencodeerrors", "getfilesystemencoding", "getprofile", "getrecursionlimit",
   "getrefcount", "getsizeof", "getswitchinterval", "gettrace", "intern", "is_finalizing",
   "set_asyncgen_hooks", "set_coroutine_origin_tracking_depth", "set_int_max_str_digits",
   "setdlopenflags", "setprofile", "setrecursionlimit", "setswitchinterval", "settrace",
   "unraisablehook"]

/-- The interpreter's own module. -/
def sys : Module :=
  .ofTable "sys" sysShown sysFunctions
    [("maxsize", .int 9223372036854775807), ("maxunicode", .int 1114111),
     ("byteorder", .str "little"), ("platform", .str "linux"),
     ("float_repr_style", .str "short"), ("api_version", .int 1013),
     ("abiflags", .str ""), ("platlibdir", .str "lib")]

/-- The constants common to `os` and `os.path`. -/
def pathConstants : List (String × Value) :=
  [("sep", .str "/"), ("altsep", .null), ("extsep", .str "."), ("pathsep", .str ":"),
   ("curdir", .str "."), ("pardir", .str ".."), ("defpath", .str "/bin:/usr/bin"),
   ("devnull", .str "/dev/null")]

/-- The module of path operations, `os.path`. -/
def posixpath : Module :=
  .ofTable "posixpath" posixpathShown []
    (pathConstants ++ [("supports_unicode_filenames", .bool false),
      ("os", moduleValue osShown), ("sys", moduleValue sysShown)])

/-- The functions of the module of operating system services. -/
def osFunctions : List String := [
   "WCOREDUMP", "WEXITSTATUS", "WIFCONTINUED", "WIFEXITED", "WIFSIGNALED", "WIFSTOPPED",
   "WSTOPSIG", "WTERMSIG", "abort", "access", "chdir", "chmod", "chown", "chroot", "close",
   "closerange", "confstr", "cpu_count", "ctermid", "device_encoding", "dup", "dup2", "eventfd",
   "eventfd_read", "eventfd_write", "execv", "execve", "fchdir", "fchmod", "fchown", "fdatasync",
   "fork", "forkpty", "fpathconf", "fspath", "fstat", "fstatvfs", "fsync", "ftruncate",
   "get_blocking", "get_inheritable", "get_terminal_size", "getcwd", "getcwdb", "getegid",
   "geteuid", "getgid", "getgrouplist", "getgroups", "getloadavg", "getlogin", "getpgid",
   "getpgrp", "getpid", "getppid", "getpriority", "getresgid", "getresuid", "getsid", "getuid",
   "getxattr", "initgroups", "isatty", "kill", "killpg", "lchown", "link", "listdir", "listxattr",
   "lockf", "login_tty", "lseek", "lstat", "major", "makedev", "minor", "mkdir", "mkfifo", "mknod",
   "nice", "open", "openpty", "pathconf", "pipe", "pipe2", "posix_fadvise", "posix_fallocate",
   "posix_spawn", "posix_spawnp", "pread", "preadv", "putenv", "pwrite", "pwritev", "read",
   "readlink", "readv", "register_at_fork", "remove", "removexattr", "rename", "replace", "rmdir",
   "scandir", "sched_get_priority_max", "sched_get_priority_min", "sched_getaffinity",
   "sched_getparam", "sched_getscheduler", "sched_rr_get_interval", "sched_setaffinity",
   "sched_setparam", "sched_setscheduler", "sched_yield", "sendfile", "set_blocking",
   "set_inheritable", "setegid", "seteuid", "setgid", "setgroups", "setpgid", "setpgrp",
   "setpriority", "setregid", "setresgid", "setresuid", "setreuid", "setsid", "setuid", "setxattr",
   "splice", "stat", "statvfs", "strerror", "symlink", "sync", "sysconf", "system", "tcgetpgrp",
   "tcsetpgrp", "times", "truncate", "ttyname", "umask", "uname", "unlink", "unsetenv", "urandom",
   "utime", "wait", "wait3", "wait4", "waitid", "waitpid", "waitstatus_to_exitcode", "write",
   "writev"]

/-- The integer constants of the module of operating system services. -/
def osNumbers : List (String × Int) := [
   ("CLD_CONTINUED", 6), ("CLD_DUMPED", 3), ("CLD_EXITED", 1), ("CLD_KILLED", 2),
   ("CLD_STOPPED", 5), ("CLD_TRAPPED", 4), ("EFD_CLOEXEC", 524288), ("EFD_NONBLOCK", 2048),
   ("EFD_SEMAPHORE", 1), ("EX_CANTCREAT", 73), ("EX_CONFIG", 78), ("EX_DATAERR", 65),
   ("EX_IOERR", 74), ("EX_NOHOST", 68), ("EX_NOINPUT", 66), ("EX_NOPERM", 77), ("EX_NOUSER", 67),
   ("EX_OK", 0), ("EX_OSERR", 71), ("EX_OSFILE", 72), ("EX_PROTOCOL", 76), ("EX_SOFTWARE", 70),
   ("EX_TEMPFAIL", 75), ("EX_UNAVAILABLE", 69), ("EX_USAGE", 64), ("F_LOCK", 1), ("F_OK", 0),
   ("F_TEST", 3), ("F_TLOCK", 2), ("F_ULOCK", 0), ("NGROUPS_MAX", 65536), ("O_ACCMODE", 3),
   ("O_APPEND", 1024), ("O_ASYNC", 8192), ("O_CLOEXEC", 524288), ("O_CREAT", 64),
   ("O_DIRECT", 16384), ("O_DIRECTORY", 65536), ("O_DSYNC", 4096), ("O_EXCL", 128),
   ("O_FSYNC", 1052672), ("O_LARGEFILE", 0), ("O_NDELAY", 2048), ("O_NOATIME", 262144),
   ("O_NOCTTY", 256), ("O_NOFOLLOW", 131072), ("O_NONBLOCK", 2048), ("O_PATH", 2097152),
   ("O_RDONLY", 0), ("O_RDWR", 2), ("O_RSYNC", 1052672), ("O_SYNC", 1052672),
   ("O_TMPFILE", 4259840), ("O_TRUNC", 512), ("O_WRONLY", 1), ("POSIX_FADV_DONTNEED", 4),
   ("POSIX_FADV_NOREUSE", 5), ("POSIX_FADV_NORMAL", 0), ("POSIX_FADV_RANDOM", 1),
   ("POSIX_FADV_SEQUENTIAL", 2), ("POSIX_FADV_WILLNEED", 3), ("POSIX_SPAWN_CLOSE", 1),
   ("POSIX_SPAWN_DUP2", 2), ("POSIX_SPAWN_OPEN", 0), ("PRIO_PGRP", 1), ("PRIO_PROCESS", 0),
   ("PRIO_USER", 2), ("P_ALL", 0), ("P_NOWAIT", 1), ("P_NOWAITO", 1), ("P_PGID", 2), ("P_PID", 1),
   ("P_WAIT", 0), ("RTLD_DEEPBIND", 8), ("RTLD_GLOBAL", 256), ("RTLD_LAZY", 1), ("RTLD_LOCAL", 0),
   ("RTLD_NODELETE", 4096), ("RTLD_NOLOAD", 4), ("RTLD_NOW", 2), ("R_OK", 4), ("SCHED_BATCH", 3),
   ("SCHED_FIFO", 1), ("SCHED_IDLE", 5), ("SCHED_OTHER", 0), ("SCHED_RESET_ON_FORK", 1073741824),
   ("SCHED_RR", 2), ("SEEK_CUR", 1), ("SEEK_DATA", 3), ("SEEK_END", 2), ("SEEK_HOLE", 4),
   ("SEEK_SET", 0), ("SPLICE_F_MORE", 4), ("SPLICE_F_MOVE", 1), ("SPLICE_F_NONBLOCK", 2),
   ("ST_APPEND", 256), ("ST_MANDLOCK", 64), ("ST_NOATIME", 1024), ("ST_NODEV", 4),
   ("ST_NODIRATIME", 2048), ("ST_NOEXEC", 8), ("ST_NOSUID", 2), ("ST_RDONLY", 1),
   ("ST_RELATIME", 4096), ("ST_SYNCHRONOUS", 16), ("ST_WRITE", 128), ("TMP_MAX", 238328),
   ("WCONTINUED", 8), ("WEXITED", 4), ("WNOHANG", 1), ("WNOWAIT", 16777216), ("WSTOPPED", 2),
   ("WUNTRACED", 2), ("W_OK", 2), ("XATTR_CREATE", 1), ("XATTR_REPLACE", 2),
   ("XATTR_SIZE_MAX", 65536), ("X_OK", 1)]

/-- The module of operating system services. -/
def os : Module :=
  .ofTable "os" osShown osFunctions
    (pathConstants ++
      [("name", .str "posix"), ("linesep", .str "\n"), ("path", moduleValue posixpathShown),
       ("sys", moduleValue sysShown), ("error", Builtin.classValue "OSError")] ++
      osNumbers.map fun (n, k) => (n, .int k))

/-- The lower-case ASCII letters. -/
def lowercase : String := "abcdefghijklmnopqrstuvwxyz"

/-- The upper-case ASCII letters. -/
def uppercase : String := "ABCDEFGHIJKLMNOPQRSTUVWXYZ"

/-- The decimal digits. -/
def digits : String := "0123456789"

/-- The ASCII punctuation characters. -/
def punctuation : String := "!\"#$%&\u0027()*+,-./:;<=>?@[\\]^_\x60\x7b|\x7d~"

/-- The ASCII white space characters. -/
def whitespace : String := " \t\n\r\x0b\x0c"

/-- The module of text constants. -/
def string : Module :=
  .ofTable "string" "<module \u0027string\u0027 from \u0027/usr/lib/python3.11/string.py\u0027>" []
    [("whitespace", .str whitespace), ("ascii_lowercase", .str lowercase),
     ("ascii_uppercase", .str uppercase), ("ascii_letters", .str (lowercase ++ uppercase)),
     ("digits", .str digits), ("hexdigits", .str (digits ++ "abcdefABCDEF")),
     ("octdigits", .str "01234567"), ("punctuation", .str punctuation),
     ("printable", .str (digits ++ lowercase ++ uppercase ++ punctuation ++ whitespace)),
     ("Template", Builtin.classValue "string.Template"),
     ("Formatter", Builtin.classValue "string.Formatter")]

/-- The functions of the module of mathematical functions. -/
def mathFunctions : List String := [
   "acos", "acosh", "asin", "asinh", "atan", "atan2", "atanh", "cbrt", "ceil", "comb", "copysign",
   "cos", "cosh", "degrees", "dist", "erf", "erfc", "exp", "exp2", "expm1", "fabs", "factorial",
   "floor", "fmod", "frexp", "fsum", "gamma", "gcd", "hypot", "isclose", "isfinite", "isinf",
   "isnan", "isqrt", "lcm", "ldexp", "lgamma", "log", "log10", "log1p", "log2", "modf",
   "nextafter", "perm", "pow", "prod", "radians", "remainder", "sin", "sinh", "sqrt", "tan",
   "tanh", "trunc", "ulp"]

/-- The module of mathematical functions. -/
def math : Module :=
  .ofTable "math" "<module \u0027math\u0027 (built-in)>" mathFunctions
    [("pi", .float 0x400921FB54442D18), ("e", .float 0x4005BF0A8B145769),
     ("tau", .float 0x401921FB54442D18), ("inf", .float 0x7FF0000000000000),
     ("nan", .float 0x7FF8000000000000)]

/-- The modules by the paths that name them. -/
def modules : List (String × Module) :=
  [(Builtin.moduleName, builtins), ("sys", sys), ("os", os), ("os.path", posixpath),
   ("posixpath", posixpath), ("string", string), ("math", math)]

/-- The module a path names, if there is one. -/
def find? (path : String) : Option Module :=
  (modules.find? (·.1 == path)).map (·.2)

/-- Why a module path, given as its parts with the last first, names no
module, if it does not: a path names a module, or its first part names
none, or the path above it names no module or one that is not a package. -/
def missing : List String → Option String
  | [] => some "No module named \u0027\u0027"
  | [n] => if (find? n).isSome then none else some ("No module named " ++ Text.quote n)
  | last :: before =>
    let name := ".".intercalate (last :: before).reverse
    let parent := ".".intercalate before.reverse
    if (find? name).isSome then none
    else if parent.isEmpty then some ("No module named " ++ Text.quote name)
    else
      match missing before with
      | some m => some m
      | none => some ("No module named " ++ Text.quote name ++ "; " ++ Text.quote parent ++ " is not a package")

theorem find_builtins : (find? Builtin.moduleName).map Module.name = some Builtin.moduleName := rfl

theorem missing_os_path : missing ["path", "os"] = none := rfl

end Library

end Yaml
end Firewall
