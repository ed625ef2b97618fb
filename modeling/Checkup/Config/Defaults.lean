/-!
# The built-in configuration

The contexts and commands that every workspace starts from.
-/

namespace Checkup.Config

/-- The built-in document, line by line. -/
def defaultLines : List String := [
  "[contexts.standard]",
  "help = \"Standard checks, used when no context is requested.\"",
  "is_default = true",
  "",
  "[contexts.strict]",
  "help = \"Edgy checks, for projects that want every warning.\"",
  "parent = \"standard\"",
  "",
  "[contexts.test]",
  "help = \"Checks tuned for test files.\"",
  "parent = \"standard\"",
  "",
  "[contexts.fast]",
  "help = \"Fast checks only.\"",
  "aliases = [\"speed\"]",
  "",
  "[contexts.documentation]",
  "help = \"Documentation related checks.\"",
  "aliases = [\"docs\"]",
  "",
  "[contexts.format]",
  "help = \"Change source files in place instead of checking them.\"",
  "",
  "[commands.black]",
  "help = \"The uncompromising Python code formatter\"",
  "args = [\"--check\"]",
  "fast = true",
  "",
  "[commands.black.format]",
  "clear_args = true",
  "",
  "[commands.isort]",
  "help = \"Sort and group Python imports\"",
  "args = [\"--check-only\", \"--profile=black\"]",
  "fast = true",
  "",
  "[commands.isort.format]",
  "args = [\"--profile=black\"]",
  "",
  "[commands.flake8]",
  "help = \"Tool for Python style guide enforcement\"",
  "args = [\"--max-line-length=88\"]",
  "fast = true",
  "",
  "[commands.flake8.test]",
  "add_args = [\"--extend-ignore=S101\"]",
  "",
  "[commands.pylint]",
  "help = \"Python static code analysis\"",
  "",
  "[commands.pylint.test]",
  "add_args = [\"--disable=missing-function-docstring,redefined-outer-name\"]",
  "",
  "[commands.mypy]",
  "help = \"Optional static typing for Python\"",
  "args = [\"--ignore-missing-imports\"]",
  "",
  "[commands.mypy.strict]",
  "add_args = [\"--strict\"]",
  "",
  "[commands.pydocstyle]",
  "help = \"Python docstring style checker\"",
  "documentation = true",
  "test = false",
  "",
  "[commands.bandit]",
  "help = \"Security oriented static analyser for Python\"",
  "args = [\"--recursive\", \"--quiet\"]",
  "test = false"]

/-- The built-in document. -/
def defaultDocument : String := "\n".intercalate defaultLines

end Checkup.Config
