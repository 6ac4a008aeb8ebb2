/-!
The help text of the command line.
-/

namespace ApiSync
namespace Command

def helpText : String := "
swagger-sync — Keep a hand-written swagger file in sync with handler and model code

USAGE:
  swagger-sync [command] [options]

COMMANDS:
  check               Report drift without writing (default)
  fix                 Write operation and component changes to the swagger file
  list                List discovered endpoints and ignored handlers
  validate-config     Validate the configuration file and print the resolved paths
  help                Show this help message

OPTIONS:
  -c, --config <file>              Config file (default: auto-detect swagger-sync.yaml)
  --env <name>                     Apply a profile from the config's environments section
  --swagger-file <file>            Swagger YAML file (default: .swagger.v1.yaml)
  --handlers-root <dir>            Handler source tree
  --models-root <dir>              Model source tree
  --project-root <dir>             Root for absolute imports when following type aliases
  --openapi-start <marker>         Block start marker (default: >>>openapi)
  --openapi-end <marker>           Block end marker (default: <<<openapi)
  --ignore-file <glob>             Skip matching handler files (repeatable)
  --strict                         Undeclared method-rooted block keys are fatal
  --show-orphans                   List swagger entries with no handler or model
  --show-ignored                   List ignored handlers
  --no-model-components            Do not generate components.schemas from models
  --validate                       Validate merged operation metadata
  --fail-on-validation-errors      Exit 1 when validation finds errors
  --fail-on-coverage-below <n>     Minimum documentation rate (0-1 or 0-100)
  --coverage-report <file>         Write a coverage report
  --coverage-format <json|text>    Coverage report format (default: json)
  --color <auto|always|never>      Colored output (default: auto)
  -h, --help                       Show this help message

CONFIG FILE (swagger-sync.yaml):
  swaggerFile: .swagger.v1.yaml
  handlersRoot: bot/lib/http/handlers
  modelsRoot: bot/lib/models
  mode: check                      # check | fix
  markers:
    start: '>>>openapi'
    end: '<<<openapi'
  ignore:
    files: ['**/test_*.py']
  options:
    strict: false
    showOrphans: true
    validate: true
    failOnCoverageBelow: 80
    color: auto
  output:
    coverageReport: reports/openapi/coverage.json
    coverageFormat: json
  environments:
    ci:
      options:
        strict: true
        color: never

EXAMPLES:
  swagger-sync check --show-orphans
  swagger-sync fix --env ci
  swagger-sync list --handlers-root src/handlers
"

end Command
end ApiSync
