import Stubwise.Stub.Chain
import Stubwise.Stub.Embedded.Builtins
import Stubwise.Stub.Embedded.Typing

namespace Stubwise

namespace Embedded

def math : String :=
  "pi: float
e: float
inf: float
nan: float

def sqrt(x: float, /) -> float: ...
def floor(x: float, /) -> int: ...
def ceil(x: float, /) -> int: ...
def log(x: float, base: float = ...) -> float: ...
def sin(x: float, /) -> float: ...
def cos(x: float, /) -> float: ...
def isnan(x: float, /) -> bool: ...
def gcd(*integers: int) -> int: ...
"

def os : String :=
  "from os import path as path

sep: str
linesep: str
name: str
environ: dict[str, str]

def getcwd() -> str: ...
def getenv(key: str, default: str | None = None) -> str | None: ...
def listdir(path: str = \".\") -> list[str]: ...
def remove(path: str) -> None: ...
def mkdir(path: str, mode: int = 511) -> None: ...
def getpid() -> int: ...
"

def osPath : String :=
  "sep: str

def join(a: str, *paths: str) -> str: ...
def exists(path: str) -> bool: ...
def isdir(s: str) -> bool: ...
def isfile(path: str) -> bool: ...
def basename(p: str) -> str: ...
def dirname(p: str) -> str: ...
def abspath(path: str) -> str: ...
def splitext(p: str) -> tuple[str, str]: ...
def split(p: str) -> tuple[str, str]: ...
"

def sys : String :=
  "from typing import Any

argv: list[str]
path: list[str]
platform: str
version: str
maxsize: int
modules: dict[str, Any]

def exit(status: object = None, /) -> None: ...
def getrecursionlimit() -> int: ...
"

def types : String :=
  "from typing import Any

class ModuleType:
    __name__: str
    __file__: str | None
    __dict__: dict[str, Any]
    def __init__(self, name: str, doc: str | None = ...) -> None: ...

class FunctionType:
    __name__: str
    __qualname__: str
    __module__: str

class NoneType:
    def __bool__(self) -> bool: ...
"

def sources : List (String × String) :=
  [("builtins.pyi", builtins),
   ("math.pyi", math),
   ("os/__init__.pyi", os),
   ("os/path.pyi", osPath),
   ("sys.pyi", sys),
   ("types.pyi", types),
   ("typing.pyi", typing)]

end Embedded

def embeddedStubs : StubTree :=
  .ofSources .embedded Embedded.sources

end Stubwise
